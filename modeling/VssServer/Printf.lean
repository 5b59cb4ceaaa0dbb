import VssServer.Numerals
import VssServer.Scanf

/-!
# Formatted output

The one conversion of a `printf` format that is used here: a number with one digit
after the point, rounded half to even.  What is printed so is read back by a scan.

* `printFixed`: a number with one digit after the point.
* `readNumber_printTenths`: a printed number is read back.
-/

namespace Printf

open Doubles Numerals

/-- The tenths of a number that is not below zero, as they are printed. -/
def tenths (q : ℚ) : Nat :=
  (roundHalfEven (q * 10)).toNat

/-- A number of tenths with its point. -/
def printTenths (n : Nat) : List Char :=
  Nat.toDigits 10 (n / 10) ++ '.' :: Nat.toDigits 10 (n % 10)

/-- A number as `%.1f` prints it. -/
def printFixed : Double → List Char
  | .finite q => sign (decide (q < 0)) ++ printTenths (tenths |q|)
  | .infinity => ['i', 'n', 'f']
  | .negInfinity => ['-', 'i', 'n', 'f']
  | .nan => ['n', 'a', 'n']

/-- A format with numbers put in. -/
def printf : List Char → List Double → List Char
  | '%' :: '.' :: '1' :: 'f' :: format, x :: xs => printFixed x ++ printf format xs
  | '%' :: '%' :: format, xs => '%' :: printf format xs
  | ch :: format, xs => ch :: printf format xs
  | [], _ => []

/-- What `snprintf` leaves in a buffer: its last character is kept for the NUL. -/
def snprintf (size : Nat) (format : String) (xs : List Double) : List Char :=
  (printf format.toList xs).take (size - 1)

/-- A number that is not negative is printed without a sign, by its tenths. -/
theorem printFixed_of_nonneg {q : ℚ} (h : 0 ≤ q) :
    printFixed (.finite q) = printTenths (tenths q) := by
  rw [printFixed, decide_eq_false (not_lt.mpr h), abs_of_nonneg h]
  rfl

/-- What is printed with one digit is printed as it is. -/
@[simp] theorem tenths_div (n : Nat) : tenths ((n : ℚ) / 10) = n := by
  have hn : ((n : ℚ) / 10) * 10 = ((n : ℤ) : ℚ) := by
    push_cast
    ring
  rw [tenths, hn, roundHalfEven_intCast, Int.toNat_natCast]

/-- A bound on a number bounds its tenths. -/
theorem tenths_le {q : ℚ} {n : Nat} (h : q ≤ n) : tenths q ≤ n * 10 := by
  have hround : roundHalfEven (q * 10) ≤ ((n * 10 : Nat) : ℤ) :=
    roundHalfEven_le (by push_cast; linarith)
  rw [tenths]
  omega

/-- The digits of the tenths are the digits that are printed. -/
theorem digitsValue_printTenths (n : Nat) :
    digitsValue (Nat.toDigits 10 (n / 10) ++ Nat.toDigits 10 (n % 10)) = n := by
  have hlast : n % 10 < 10 := Nat.mod_lt _ (by decide)
  rw [digitsValue, Nat.ofDigitChars_append, Nat.ofDigitChars_ten_toDigits,
    Nat.toDigits_of_lt_base hlast, Nat.ofDigitChars_cons_digitChar_of_lt_ten hlast,
    Nat.ofDigitChars_nil, Nat.div_add_mod]

/-- A numeral has a point, one digit after it and as many before it as the number needs. -/
theorem length_printTenths_le {n digits : Nat} (hdigits : 0 < digits)
    (h : n < 10 ^ (digits + 1)) : (printTenths n).length ≤ digits + 2 := by
  have hwhole : (Nat.toDigits 10 (n / 10)).length ≤ digits := by
    rw [Nat.length_toDigits_le_iff (by decide) hdigits]
    rw [pow_succ] at h
    omega
  rw [printTenths, Nat.toDigits_of_lt_base (Nat.mod_lt n (by decide : 0 < 10))]
  simp only [List.length_append, List.length_cons, List.length_nil]
  omega

/-! ### Printed numbers are read back -/

open Scanf

/-- A text that begins with a digit begins with no letter. -/
theorem startsWith_of_isDigit {letter ch : Char} (hch : ch.isDigit)
    (hletter : letter.isDigit = false) (text : List Char) :
    startsWith letter (ch :: text) = false := by
  have hlower : ch.toLower = ch := by
    unfold Char.toLower
    split
    · rename_i hupper
      have hle : ch.toNat ≤ 57 := (isDigit_iff.mp hch).2
      have hge : 65 ≤ ch.toNat := hupper.1
      omega
    · rfl
  simpa [startsWith, hlower] using ne_of_isDigit hch hletter

/-- Digits, a point and digits are read as a decimal fraction. -/
theorem readMantissa_point {whole fraction : List Char} (hwhole : IsDigits whole)
    (hfraction : IsDigits fraction) {ch : Char} (hch : ch.isDigit = false) (rest : List Char) :
    readMantissa decimalDigits (whole ++ '.' :: (fraction ++ ch :: rest)) =
      some ((digitsValue (whole ++ fraction) : ℚ) / 10 ^ fraction.length, ch :: rest) := by
  have hdot : ('.').isDigit = false := by decide
  have htake := hwhole.takeWhile hdot (fraction ++ ch :: rest)
  have hdrop := hwhole.dropWhile hdot (fraction ++ ch :: rest)
  have hne : whole ++ fraction ≠ [] := fun hnil =>
    hwhole.ne_nil (List.append_eq_nil_iff.mp hnil).1
  unfold readMantissa
  simp only [decimalDigits, htake, hdrop, hfraction.takeWhile hch rest,
    hfraction.dropWhile hch rest, if_neg hne]
  rfl

/-- What begins with a digit is read without a sign, and as a decimal number if no `x`
comes next. -/
theorem readNumber_of_isDigit {digit : Char} {text : List Char} (hdigit : digit.isDigit)
    (hx : startsWith 'x' text = false) :
    readNumber (digit :: text) =
      (readFinite decimalDigits (digit :: text)).map fun (x, rest) =>
        (withSign false x, rest) := by
  have hsign : readSign (digit :: text) = (false, digit :: text) := by
    rw [readSign, if_neg (ne_of_isDigit hdigit (by decide)),
      if_neg (ne_of_isDigit hdigit (by decide))]
  have hunsigned : readUnsigned (digit :: text) = readFinite decimalDigits (digit :: text) := by
    have hinfinity := startsWith_of_isDigit hdigit (by decide : ('i').isDigit = false) text
    have hnan := startsWith_of_isDigit hdigit (by decide : ('n').isDigit = false) text
    simp [readUnsigned, hinfinity, hnan, hx]
  rw [readNumber, hsign]
  simp only [hunsigned]

/-- The first character is a digit, and after it comes a digit or the point. -/
theorem printTenths_append (n : Nat) (rest : List Char) :
    ∃ digit text, printTenths n ++ rest = digit :: text ∧ digit.isDigit ∧
      startsWith 'x' text = false := by
  have hwhole := isDigits_toDigits (n / 10)
  rw [printTenths, List.append_assoc]
  revert hwhole
  cases Nat.toDigits 10 (n / 10) with
  | nil => exact fun hwhole => absurd rfl hwhole.ne_nil
  | cons digit whole =>
      intro hwhole
      refine ⟨digit, _, rfl, hwhole.isDigit digit List.mem_cons_self, ?_⟩
      cases whole with
      | nil => exact rfl
      | cons second whole =>
          have hsecond := hwhole.isDigit second (List.mem_cons_of_mem _ List.mem_cons_self)
          exact startsWith_of_isDigit hsecond (by decide) _

/-- **A printed number is read back.**  What is printed for a number of tenths is read as
that number, up to a character that is no digit and begins no exponent. -/
theorem readNumber_printTenths (n : Nat) {ch : Char} (hch : ch.isDigit = false)
    (hexponent : ch.toLower ≠ 'e') (rest : List Char) :
    readNumber (printTenths n ++ ch :: rest) = some (.finite ((n : ℚ) / 10), ch :: rest) := by
  have hwhole := isDigits_toDigits (n / 10)
  have hfraction := isDigits_toDigits (n % 10)
  have hmantissa : readMantissa decimalDigits (printTenths n ++ ch :: rest) =
      some ((n : ℚ) / 10, ch :: rest) := by
    have hone : (Nat.toDigits 10 (n % 10)).length = 1 := by
      rw [Nat.toDigits_of_lt_base (Nat.mod_lt n (by decide : 0 < 10)), List.length_singleton]
    rw [printTenths, List.append_assoc, List.cons_append,
      readMantissa_point hwhole hfraction hch rest, digitsValue_printTenths, hone, pow_one]
  have hzero : readExponent decimalDigits (ch :: rest) = some (0, ch :: rest) := by
    have hnone : startsWith decimalDigits.mark (ch :: rest) = false :=
      decide_eq_false hexponent
    rw [readExponent, hnone]
    rfl
  have hfinite : readFinite decimalDigits (printTenths n ++ ch :: rest) =
      some (.finite ((n : ℚ) / 10), ch :: rest) := by
    rw [readFinite, hmantissa]
    simp only [Option.bind_eq_bind, Option.bind_some, hzero, zpow_zero, mul_one]
    rfl
  obtain ⟨digit, text, htext, hdigit, hx⟩ := printTenths_append n (ch :: rest)
  rw [htext] at hfinite ⊢
  rw [readNumber_of_isDigit hdigit hx, hfinite]
  rfl

end Printf
