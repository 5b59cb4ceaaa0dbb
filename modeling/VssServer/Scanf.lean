import Mathlib.Data.List.TakeWhile
import VssServer.Doubles

/-!
# Formatted input

The directives of a `scanf` format: ordinary characters, white space, numbers,
sets of characters that are read and not kept, and the count of what has been read.
A directive takes the longest item that is, or begins, an input of its kind; it
fails if that item is only the beginning of one.  A failure ends the scan.

A text is a list of bytes, and a `Char` stands for one of them.  `%lf` follows ISO C
rather than glibc where these differ.  A number is the exact one that the item denotes:
neither its rounding to a `double` nor the sign of a zero is modelled.

* `readNumber`: the longest item that is, or begins, a number.
* `scan`: the directives of a format, one after the other.
* `readNumber_item`: which symbols a number is written with.
* `scan_white_number_inv`: what a format with a number in front has read.
-/

namespace Scanf

open Doubles

/-- `isspace`. -/
def isSpace (ch : Char) : Bool :=
  ch = ' ' || (9 ≤ ch.toNat && ch.toNat ≤ 13)

/-! ### Numbers -/

/-- A number after its sign. -/
def withSign (negative : Bool) : Double → Double
  | .finite q => .finite (if negative then -q else q)
  | .infinity => if negative then .negInfinity else .infinity
  | .negInfinity => if negative then .infinity else .negInfinity
  | .nan => .nan

/-- An optional sign: whether it is a minus, and the rest. -/
def readSign : List Char → Bool × List Char
  | [] => (false, [])
  | ch :: text =>
      if ch = '-' then (true, text)
      else if ch = '+' then (false, text)
      else (false, ch :: text)

/-- The rest after a word in letters of either case. -/
def readWord : List Char → List Char → Option (List Char)
  | [], text => some text
  | _ :: _, [] => none
  | letter :: word, ch :: text => if ch.toLower = letter then readWord word text else none

/-- Whether a text goes on with a letter, in either case. -/
def startsWith (letter : Char) : List Char → Bool
  | [] => false
  | ch :: _ => ch.toLower = letter

/-- `inf` or `infinity`. -/
def readInfinity (text : List Char) : Option (Double × List Char) := do
  let rest ← readWord "inf".toList text
  if startsWith 'i' rest then
    let rest ← readWord "inity".toList rest
    return (.infinity, rest)
  return (.infinity, rest)

/-- `nan`, or `nan` with letters, digits and underscores in brackets. -/
def readNan (text : List Char) : Option (Double × List Char) := do
  let rest ← readWord "nan".toList text
  match rest with
  | '(' :: rest =>
      match rest.dropWhile fun ch => ch.isAlphanum || ch = '_' with
      | ')' :: rest => some (.nan, rest)
      | _ => none
  | rest => some (.nan, rest)

/-- A system of digits: the digits, the number that they are written for, its base, the
letter that stands before an exponent and what the exponent is a power of. -/
structure Digits where
  isDigit : Char → Bool
  value : List Char → Nat
  base : Nat
  mark : Char
  radix : Nat

def hexDigit (ch : Char) : Nat :=
  if ch.isDigit then ch.toNat - '0'.toNat else ch.toLower.toNat - 'a'.toNat + 10

def decimalDigits : Digits where
  isDigit := Char.isDigit
  value digits := Nat.ofDigitChars 10 digits 0
  base := 10
  mark := 'e'
  radix := 10

def hexDigits : Digits where
  isDigit := Char.isHexDigit
  value digits := digits.foldl (fun value ch => 16 * value + hexDigit ch) 0
  base := 16
  mark := 'p'
  radix := 2

/-- Digits with at most one point, one digit at least. -/
def readMantissa (digits : Digits) (text : List Char) : Option (ℚ × List Char) :=
  let whole := text.takeWhile digits.isDigit
  match text.dropWhile digits.isDigit with
  | '.' :: rest =>
      let fraction := rest.takeWhile digits.isDigit
      if whole ++ fraction = [] then none
      else some (digits.value (whole ++ fraction) / (digits.base : ℚ) ^ fraction.length,
        rest.dropWhile digits.isDigit)
  | rest => if whole = [] then none else some (digits.value whole, rest)

/-- An optional exponent. -/
def readExponent (digits : Digits) (text : List Char) : Option (Int × List Char) :=
  if startsWith digits.mark text then
    let (negative, rest) := readSign text.tail
    let exponent := rest.takeWhile Char.isDigit
    if exponent = [] then none
    else
      let value : Int := Nat.ofDigitChars 10 exponent 0
      some (if negative then -value else value, rest.dropWhile Char.isDigit)
  else some (0, text)

def readFinite (digits : Digits) (text : List Char) : Option (Double × List Char) := do
  let (mantissa, rest) ← readMantissa digits text
  let (exponent, rest) ← readExponent digits rest
  return (.finite (mantissa * (digits.radix : ℚ) ^ exponent), rest)

/-- A number without its sign. -/
def readUnsigned (text : List Char) : Option (Double × List Char) :=
  if startsWith 'i' text then readInfinity text
  else if startsWith 'n' text then readNan text
  else if startsWith '0' text && startsWith 'x' text.tail then
    readFinite hexDigits text.tail.tail
  else readFinite decimalDigits text

/-- A number as `%lf` reads it, without the white space before it. -/
def readNumber (text : List Char) : Option (Double × List Char) :=
  let (negative, rest) := readSign text
  (readUnsigned rest).map fun (x, rest) => (withSign negative x, rest)

/-! ### What a number is written with -/

/-- The digits of ASCII. -/
theorem isDigit_iff {ch : Char} : ch.isDigit ↔ 48 ≤ ch.toNat ∧ ch.toNat ≤ 57 := by
  rw [Char.isDigit, Bool.and_eq_true, decide_eq_true_eq, decide_eq_true_eq]
  rfl

/-- The letters and digits, by their numbers. -/
theorem isAlphanum_iff {ch : Char} : ch.isAlphanum ↔
    65 ≤ ch.toNat ∧ ch.toNat ≤ 90 ∨ 97 ≤ ch.toNat ∧ ch.toNat ≤ 122 ∨
      48 ≤ ch.toNat ∧ ch.toNat ≤ 57 := by
  have hupper : ch.isUpper ↔ 65 ≤ ch.toNat ∧ ch.toNat ≤ 90 := decide_eq_true_iff
  have hlower : ch.isLower ↔ 97 ≤ ch.toNat ∧ ch.toNat ≤ 122 :=
    (Bool.and_eq_true _ _).to_iff.trans (and_congr decide_eq_true_iff decide_eq_true_iff)
  have halpha : ch.isAlpha = (ch.isUpper || ch.isLower) := rfl
  rw [Char.isAlphanum, halpha, Bool.or_eq_true, Bool.or_eq_true, hupper, hlower, isDigit_iff,
    or_assoc]

/-- The symbols of a number. -/
def isNumberChar (ch : Char) : Bool :=
  ch.isAlphanum || ['+', '-', '.', '(', ')', '_'].contains ch

/-- Only symbols of a number stand before the rest. -/
def After (text rest : List Char) : Prop :=
  ∃ item, text = item ++ rest ∧ ∀ ch ∈ item, isNumberChar ch

/-- Nothing has been read of a text that is left as it is. -/
theorem After.refl (text : List Char) : After text text :=
  ⟨[], rfl, fun _ hch => absurd hch List.not_mem_nil⟩

/-- One character of a number is read. -/
theorem After.cons {ch : Char} {text rest : List Char} (hch : isNumberChar ch)
    (h : After text rest) : After (ch :: text) rest := by
  obtain ⟨item, rfl, hitem⟩ := h
  refine ⟨ch :: item, rfl, fun ch' hch' => ?_⟩
  rcases List.mem_cons.mp hch' with rfl | hch'
  · exact hch
  · exact hitem ch' hch'

/-- What two readers take one after the other. -/
theorem After.trans {text rest rest' : List Char} (h : After text rest)
    (h' : After rest rest') : After text rest' := by
  obtain ⟨item, rfl, hitem⟩ := h
  obtain ⟨item', rfl, hitem'⟩ := h'
  refine ⟨item ++ item', (List.append_assoc _ _ _).symm, fun ch hch => ?_⟩
  rcases List.mem_append.mp hch with hch | hch
  · exact hitem ch hch
  · exact hitem' ch hch

/-- A reader that skips characters of numbers has read these alone. -/
theorem after_dropWhile {p : Char → Bool} (hp : ∀ ch, p ch → isNumberChar ch)
    (text : List Char) : After text (text.dropWhile p) :=
  ⟨text.takeWhile p, List.takeWhile_append_dropWhile.symm,
    fun ch hch => hp ch (List.mem_takeWhile_imp hch)⟩

/-- Reading leaves no more than there was. -/
theorem After.length_le {text rest : List Char} (h : After text rest) :
    rest.length ≤ text.length := by
  obtain ⟨item, rfl, -⟩ := h
  rw [List.length_append]
  omega

/-- Letters and digits stand in numbers: `inf`, `nan`, `0x`. -/
private theorem isNumberChar_of_alphanum {ch : Char} (h : ch.isAlphanum) : isNumberChar ch := by
  rw [isNumberChar, h]
  rfl

/-- Decimal digits stand in numbers. -/
private theorem isNumberChar_of_isDigit {ch : Char} (h : ch.isDigit) : isNumberChar ch :=
  isNumberChar_of_alphanum (by rw [Char.isAlphanum, h, Bool.or_true])

/-- Hexadecimal digits stand in numbers. -/
private theorem isNumberChar_of_isHexDigit {ch : Char} (h : ch.isHexDigit) :
    isNumberChar ch := by
  refine isNumberChar_of_alphanum (isAlphanum_iff.mpr ?_)
  simp only [Char.isHexDigit, Bool.or_eq_true, isDigit_iff, Bool.and_eq_true, decide_eq_true_eq,
    ge_iff_le, UInt32.le_iff_toNat_le, Char.reduceVal, UInt32.reduceToNat, Char.toNat_val] at h
  omega

/-- A letter in either case is a symbol of a number. -/
private theorem isNumberChar_of_toLower {ch letter : Char} (h : ch.toLower = letter)
    (hletter : letter.isAlphanum) : isNumberChar ch := by
  refine isNumberChar_of_alphanum ?_
  unfold Char.toLower at h
  split at h
  · rename_i hupper
    exact isAlphanum_iff.mpr (.inl hupper)
  · rw [h]
    exact hletter

/-- A sign is a character of a number. -/
theorem readSign_after (text : List Char) : After text (readSign text).2 := by
  cases text with
  | nil => exact .refl _
  | cons ch text =>
      rw [readSign]
      by_cases hminus : ch = '-'
      · rw [if_pos hminus, hminus]
        exact .cons (by decide) (.refl _)
      rw [if_neg hminus]
      by_cases hplus : ch = '+'
      · rw [if_pos hplus, hplus]
        exact .cons (by decide) (.refl _)
      rw [if_neg hplus]
      exact .refl _

/-- A word is read as a whole. -/
theorem readWord_after {word text rest : List Char} (hword : word.all Char.isAlphanum)
    (h : readWord word text = some rest) :
    After text rest ∧ text.length = rest.length + word.length := by
  induction word generalizing text with
  | nil =>
      cases h
      exact ⟨.refl _, rfl⟩
  | cons letter word ih =>
      cases text with
      | nil => cases h
      | cons ch text =>
          obtain ⟨hch, h⟩ := Option.ite_none_right_eq_some.mp h
          obtain ⟨hletter, hword⟩ := Bool.and_eq_true_iff.mp hword
          obtain ⟨hafter, hlength⟩ := ih hword h
          refine ⟨.cons (isNumberChar_of_toLower hch hletter) hafter, ?_⟩
          rw [List.length_cons, List.length_cons, hlength, Nat.add_assoc]

/-- A word that has a letter leaves less to read. -/
theorem readWord_shorter {word text rest : List Char} (hword : word.all Char.isAlphanum)
    (hne : word ≠ []) (h : readWord word text = some rest) :
    After text rest ∧ rest.length < text.length := by
  obtain ⟨hafter, hlength⟩ := readWord_after hword h
  have hpos := List.length_pos_iff.mpr hne
  exact ⟨hafter, by omega⟩

/-- `inf` and `infinity` are made of characters of numbers. -/
theorem readInfinity_after {text rest : List Char} {x : Double}
    (h : readInfinity text = some (x, rest)) : After text rest ∧ rest.length < text.length := by
  obtain ⟨rest', hinf, h⟩ := Option.bind_eq_some_iff.mp h
  obtain ⟨hafter, hlt⟩ := readWord_shorter (by decide) (by decide) hinf
  split at h
  · obtain ⟨rest'', hinity, h⟩ := Option.bind_eq_some_iff.mp h
    cases h
    obtain ⟨hafter', -⟩ := readWord_after (by decide) hinity
    exact ⟨hafter.trans hafter', hafter'.length_le.trans_lt hlt⟩
  · cases h
    exact ⟨hafter, hlt⟩

/-- So is `nan`, with the characters in its parentheses. -/
theorem readNan_after {text rest : List Char} {x : Double}
    (h : readNan text = some (x, rest)) : After text rest ∧ rest.length < text.length := by
  obtain ⟨rest', hnan, h⟩ := Option.bind_eq_some_iff.mp h
  obtain ⟨hafter, hlt⟩ := readWord_shorter (by decide) (by decide) hnan
  split at h
  · rename_i inner
    have hinner : After inner (inner.dropWhile fun ch => ch.isAlphanum || ch = '_') := by
      refine after_dropWhile (fun ch hch => ?_) inner
      rcases Bool.or_eq_true_iff.mp hch with hch | hch
      · exact isNumberChar_of_alphanum hch
      · rw [of_decide_eq_true hch]
        decide
    split at h
    · rename_i hclose
      cases h
      rw [hclose] at hinner
      have hafter' : After ('(' :: inner) rest :=
        .cons (by decide) (hinner.trans (.cons (by decide) (.refl _)))
      exact ⟨hafter.trans hafter', hafter'.length_le.trans_lt hlt⟩
    · cases h
  · cases h
    exact ⟨hafter, hlt⟩

/-- The digits of a system are symbols of a number. -/
def Digits.Written (digits : Digits) : Prop :=
  ∀ ch, digits.isDigit ch → isNumberChar ch

/-- Decimal digits are characters of numbers. -/
theorem decimalDigits_written : decimalDigits.Written :=
  fun _ => isNumberChar_of_isDigit

/-- So are the hexadecimal ones. -/
theorem hexDigits_written : hexDigits.Written :=
  fun _ => isNumberChar_of_isHexDigit

/-- A mantissa has a digit at least. -/
theorem readMantissa_after {digits : Digits} (hdigits : digits.Written) {text rest : List Char}
    {q : ℚ} (h : readMantissa digits text = some (q, rest)) :
    After text rest ∧ rest.length < text.length := by
  have hwhole := after_dropWhile hdigits text
  rw [readMantissa] at h
  split at h
  · rename_i rest' hpoint
    rw [hpoint] at hwhole
    obtain ⟨-, h⟩ := Option.ite_none_left_eq_some.mp h
    cases h
    have hfraction : After rest' (rest'.dropWhile digits.isDigit) := after_dropWhile hdigits rest'
    have hlength := hwhole.length_le
    have hlength' := hfraction.length_le
    rw [List.length_cons] at hlength
    exact ⟨hwhole.trans (.cons (by decide) hfraction), by omega⟩
  · obtain ⟨hne, h⟩ := Option.ite_none_left_eq_some.mp h
    cases h
    refine ⟨hwhole, ?_⟩
    have hlength := congrArg List.length
      (List.takeWhile_append_dropWhile (p := digits.isDigit) (l := text))
    have hpos := List.length_pos_iff.mpr hne
    rw [List.length_append] at hlength
    omega

/-- An exponent may be missing, so that nothing is read. -/
theorem readExponent_after {digits : Digits} (hmark : digits.mark.isAlphanum)
    {text rest : List Char} {n : Int} (h : readExponent digits text = some (n, rest)) :
    After text rest := by
  rw [readExponent] at h
  split at h
  · rename_i hstart
    cases text with
    | nil => cases hstart
    | cons ch text =>
        obtain ⟨-, h⟩ := Option.ite_none_left_eq_some.mp h
        cases h
        have hch := isNumberChar_of_toLower (of_decide_eq_true hstart) hmark
        exact .cons hch ((readSign_after text).trans
          (after_dropWhile (fun _ => isNumberChar_of_isDigit) _))
  · cases h
    exact .refl _

/-- A finite number begins with its mantissa, and so leaves less to read. -/
theorem readFinite_after {digits : Digits} (hdigits : digits.Written)
    (hmark : digits.mark.isAlphanum) {text rest : List Char} {x : Double}
    (h : readFinite digits text = some (x, rest)) :
    After text rest ∧ rest.length < text.length := by
  obtain ⟨⟨mantissa, rest'⟩, hmantissa, h⟩ := Option.bind_eq_some_iff.mp h
  obtain ⟨⟨exponent, rest''⟩, hexponent, h⟩ := Option.bind_eq_some_iff.mp h
  cases h
  obtain ⟨hafter, hlt⟩ := readMantissa_after hdigits hmantissa
  have hafter' := readExponent_after hmark hexponent
  exact ⟨hafter.trans hafter', hafter'.length_le.trans_lt hlt⟩

/-- Whatever `%lf` reads after the sign is not empty. -/
theorem readUnsigned_after {text rest : List Char} {x : Double}
    (h : readUnsigned text = some (x, rest)) : After text rest ∧ rest.length < text.length := by
  rw [readUnsigned] at h
  split at h
  · exact readInfinity_after h
  split at h
  · exact readNan_after h
  split at h
  · rename_i hhex
    obtain ⟨hafter, hlt⟩ := readFinite_after hexDigits_written (by decide) h
    obtain ⟨hzero, hx⟩ := Bool.and_eq_true_iff.mp hhex
    cases text with
    | nil => cases hzero
    | cons zero text =>
        cases text with
        | nil => cases hx
        | cons x text =>
            have hzero := isNumberChar_of_toLower (of_decide_eq_true hzero) (by decide)
            have hx := isNumberChar_of_toLower (of_decide_eq_true hx) (by decide)
            refine ⟨.cons hzero (.cons hx hafter), hlt.trans ?_⟩
            exact Nat.lt_add_of_pos_right (by decide : 0 < 2)
  · exact readFinite_after decimalDigits_written (by decide) h

/-- **A number is written with the symbols of numbers.**  What the scanner takes for a
number is at least one symbol, and no blank, comma, percent sign or NUL. -/
theorem readNumber_item {text rest : List Char} {x : Double}
    (h : readNumber text = some (x, rest)) :
    ∃ item, text = item ++ rest ∧ item ≠ [] ∧ ∀ ch ∈ item, isNumberChar ch := by
  obtain ⟨⟨x', rest'⟩, hunsigned, heq⟩ := Option.map_eq_some_iff.mp h
  cases heq
  obtain ⟨hafter, hlt⟩ := readUnsigned_after hunsigned
  obtain ⟨item, heq, hitem⟩ := (readSign_after text).trans hafter
  have hshorter : rest.length < text.length := hlt.trans_le (readSign_after text).length_le
  refine ⟨item, heq, ?_, hitem⟩
  rintro rfl
  rw [heq, List.nil_append] at hshorter
  exact lt_irrefl _ hshorter

/-! ### Directives -/

/-- What a format asks for: a character, any white space, a number that is stored, a
run of characters of a set that is not, and the count of characters read so far. -/
inductive Directive
  | literal (ch : Char)
  | white
  | number
  | skipSet (set : List Char)
  | count
  deriving DecidableEq

/-- The directives of a format, of which sets are given without exclusion or ranges.
The first argument is the set that is being read. -/
def directives : Option (List Char) → List Char → Option (List Directive)
  | none, [] => some []
  | none, '%' :: 'l' :: 'f' :: format => (directives none format).map (.number :: ·)
  | none, '%' :: 'n' :: format => (directives none format).map (.count :: ·)
  | none, '%' :: '*' :: '[' :: format => directives (some []) format
  | none, '%' :: _ => none
  | none, ch :: format =>
      (directives none format).map ((if isSpace ch then .white else .literal ch) :: ·)
  | some _, [] => none
  | some set, ch :: format =>
      if ch = ']' then (directives none format).map (.skipSet set :: ·)
      else if ch = '^' ∨ ch = '-' then none
      else directives (some (set ++ [ch])) format

/-- One directive: the numbers that it stores, and the rest of the text. -/
def Directive.step : Directive → List Char → Option (List Double × List Char)
  | .literal _, [] => none
  | .literal ch, ch' :: rest => if ch' = ch then some ([], rest) else none
  | .white, text => some ([], text.dropWhile isSpace)
  | .number, text =>
      (readNumber (text.dropWhile isSpace)).map fun (x, rest) => ([x], rest)
  | .skipSet set, text =>
      if text.takeWhile set.contains = [] then none
      else some ([], text.dropWhile set.contains)
  | .count, text => some ([], text)

/-- What a scan has stored: the numbers, and the count if it was reached.  The number of
items that `scanf` returns is that of the numbers. -/
structure Scanned where
  numbers : List Double := []
  count : Option Nat := none

/-- A scan of a text, which ends with the first directive that fails. -/
def run (size : Nat) : List Directive → List Char → Scanned
  | [], _ => {}
  | directive :: format, text =>
      match directive.step text with
      | none => {}
      | some (xs, rest) =>
          let scanned := run size format rest
          { numbers := xs ++ scanned.numbers
            count := if directive = .count then some (size - text.length) else scanned.count }

/-- A string as C sees it, up to its first NUL. -/
def cString (text : List Char) : List Char :=
  text.takeWhile fun ch => ch.toNat ≠ 0

def sscanf (text : List Char) (format : String) : Scanned :=
  match directives none format.toList with
  | some directives => run (cString text).length directives (cString text)
  | none => {}

/-- Directives that all succeed: the numbers that they store, and the rest. -/
def scan : List Directive → List Char → Option (List Double × List Char)
  | [], text => some ([], text)
  | directive :: format, text =>
      match directive.step text with
      | none => none
      | some (xs, rest) => (scan format rest).map fun (xs', rest) => (xs ++ xs', rest)

/-- A format goes on where its first directive has stopped. -/
theorem scan_cons {directive : Directive} {format : List Directive} {text rest rest' : List Char}
    {xs xs' : List Double} (hstep : directive.step text = some (xs, rest))
    (h : scan format rest = some (xs', rest')) :
    scan (directive :: format) text = some (xs ++ xs', rest') := by
  rw [scan, hstep]
  simp only [h, Option.map_some]

/-- What a scan that succeeds has done with its first directive. -/
theorem scan_cons_inv {directive : Directive} {format : List Directive} {text rest' : List Char}
    {xs : List Double} (h : scan (directive :: format) text = some (xs, rest')) :
    ∃ xs' rest xs'', directive.step text = some (xs', rest) ∧
      scan format rest = some (xs'', rest') ∧ xs = xs' ++ xs'' := by
  rw [scan] at h
  split at h
  · cases h
  · rename_i xs' rest hstep
    obtain ⟨⟨xs'', rest''⟩, hscan, heq⟩ := Option.map_eq_some_iff.mp h
    cases heq
    exact ⟨xs', rest, xs'', hstep, hscan, rfl⟩

/-- After directives that succeed a scan goes on with the rest of the text. -/
theorem run_append {size : Nat} {format : List Directive} (hcount : .count ∉ format)
    {text rest : List Char} {xs : List Double} (h : scan format text = some (xs, rest))
    (format' : List Directive) :
    run size (format ++ format') text =
      { numbers := xs ++ (run size format' rest).numbers
        count := (run size format' rest).count } := by
  induction format generalizing text xs with
  | nil =>
      cases h
      rfl
  | cons directive format ih =>
      obtain ⟨hdirective, hcount⟩ := not_or.mp (List.mem_cons.not.mp hcount)
      obtain ⟨xs', rest', xs'', hstep, hscan, rfl⟩ := scan_cons_inv h
      rw [List.cons_append, run, hstep]
      simp only [ih hcount hscan, if_neg (Ne.symm hdirective), List.append_assoc]

/-- Only `%lf` stores a number, and only one. -/
private theorem step_numbers {directive : Directive} {text rest : List Char} {xs : List Double}
    (h : directive.step text = some (xs, rest)) :
    xs.length ≤ if directive = .number then 1 else 0 := by
  cases directive with
  | literal ch =>
      cases text with
      | nil => cases h
      | cons ch' text =>
          obtain ⟨-, h⟩ := Option.ite_none_right_eq_some.mp h
          cases h
          exact Nat.zero_le _
  | white =>
      cases h
      exact Nat.zero_le _
  | number =>
      obtain ⟨⟨x, rest'⟩, -, heq⟩ := Option.map_eq_some_iff.mp h
      cases heq
      exact le_rfl
  | skipSet set =>
      obtain ⟨-, h⟩ := Option.ite_none_left_eq_some.mp h
      cases h
      exact Nat.zero_le _
  | count =>
      cases h
      exact Nat.zero_le _

/-- A scan that fails at a directive, or before, stores no more numbers than were asked
for before it. -/
theorem run_numbers_le {size : Nat} {format : List Directive} {directive : Directive}
    {text : List Char} (h : scan (format ++ [directive]) text = none)
    (format' : List Directive) :
    (run size (format ++ directive :: format') text).numbers.length ≤ format.count .number := by
  induction format generalizing text with
  | nil =>
      rw [List.nil_append, scan] at h
      split at h
      · rename_i hstep
        rw [List.nil_append, run, hstep]
        exact Nat.zero_le _
      · cases h
  | cons directive' format ih =>
      rw [List.cons_append, scan] at h
      rw [List.cons_append, run]
      split at h
      · exact Nat.zero_le _
      · rename_i xs rest hstep
        have hfailed := ih (Option.map_eq_none_iff.mp h)
        have hxs := step_numbers hstep
        rw [List.count_cons]
        simp only [List.length_append, beq_iff_eq]
        omega

/-! ### What a directive takes -/

/-- An ordinary character of the format matches itself. -/
theorem literal_step {ch : Char} {text rest : List Char} {xs : List Double} :
    (Directive.literal ch).step text = some (xs, rest) ↔ xs = [] ∧ text = ch :: rest := by
  cases text with
  | nil =>
      constructor
      · intro h
        cases h
      · rintro ⟨-, h⟩
        cases h
  | cons ch' text =>
      rw [Directive.step, Option.ite_none_right_eq_some, List.cons.injEq]
      constructor
      · rintro ⟨hch, h⟩
        cases h
        exact ⟨rfl, hch, rfl⟩
      · rintro ⟨rfl, hch, rfl⟩
        exact ⟨hch, rfl⟩

/-- White space of the format matches any amount of white space. -/
theorem white_step {text rest : List Char} {xs : List Double}
    (h : Directive.white.step text = some (xs, rest)) :
    xs = [] ∧ ∃ blanks, (∀ ch ∈ blanks, isSpace ch) ∧ text = blanks ++ rest := by
  cases h
  exact ⟨rfl, text.takeWhile isSpace, fun ch hch => List.mem_takeWhile_imp hch,
    List.takeWhile_append_dropWhile.symm⟩

/-- `%lf` skips white space and reads one number. -/
theorem number_step {text rest : List Char} {xs : List Double}
    (h : Directive.number.step text = some (xs, rest)) :
    ∃ x blanks item, xs = [x] ∧ (∀ ch ∈ blanks, isSpace ch) ∧
      readNumber (item ++ rest) = some (x, rest) ∧ text = blanks ++ (item ++ rest) := by
  obtain ⟨⟨x, rest'⟩, hread, heq⟩ := Option.map_eq_some_iff.mp h
  cases heq
  obtain ⟨item, hitem, -, -⟩ := readNumber_item hread
  rw [hitem] at hread
  refine ⟨x, text.takeWhile isSpace, item, rfl, fun ch hch => List.mem_takeWhile_imp hch,
    hread, ?_⟩
  rw [← hitem, List.takeWhile_append_dropWhile]

/-- `%*[set]` skips some characters of the set, one at least. -/
theorem skipSet_step {set : List Char} {text rest : List Char} {xs : List Double}
    (h : (Directive.skipSet set).step text = some (xs, rest)) :
    xs = [] ∧ ∃ item, item ≠ [] ∧ (∀ ch ∈ item, ch ∈ set) ∧ text = item ++ rest := by
  obtain ⟨hne, h⟩ := Option.ite_none_left_eq_some.mp h
  cases h
  exact ⟨rfl, text.takeWhile set.contains, hne,
    fun ch hch => List.contains_iff_mem.mp (List.mem_takeWhile_imp hch),
    List.takeWhile_append_dropWhile.symm⟩

/-- What does not begin with a character of a kind stops a run of that kind. -/
theorem dropWhile_append_stop {p : Char → Bool} (front : List Char) {ch : Char}
    {rest : List Char} (hch : p ch = false) :
    (front ++ ch :: rest).dropWhile p = front.dropWhile p ++ ch :: rest := by
  rw [List.dropWhile_append]
  split
  · rename_i hnil
    rw [List.isEmpty_iff.mp hnil, List.nil_append, List.dropWhile_cons_of_neg]
    rw [hch]
    exact Bool.false_ne_true
  · rfl

/-- The symbols of a number come after the blank. -/
theorem lt_toNat_of_isNumberChar {ch : Char} (h : isNumberChar ch) : 32 < ch.toNat := by
  rcases Bool.or_eq_true_iff.mp h with h | h
  · rw [isAlphanum_iff] at h
    omega
  · have hmem := List.contains_iff_mem.mp h
    simp only [List.mem_cons, List.not_mem_nil, or_false] at hmem
    rcases hmem with rfl | rfl | rfl | rfl | rfl | rfl <;> decide

/-- No number contains white space. -/
theorem isSpace_of_isNumberChar {ch : Char} (h : isNumberChar ch) : isSpace ch = false := by
  have hlt := lt_toNat_of_isNumberChar h
  have hblank : ch ≠ ' ' := by
    rintro rfl
    exact absurd hlt (by decide)
  have hcontrol : ¬ ch.toNat ≤ 13 := by omega
  simp [isSpace, hblank, hcontrol]

/-- A number begins with a symbol of a number, and has no other symbols. -/
theorem readNumber_chars {item rest : List Char} {x : Double}
    (h : readNumber (item ++ rest) = some (x, rest)) :
    item ≠ [] ∧ ∀ ch ∈ item, isNumberChar ch := by
  obtain ⟨item', hitem, hne, hchars⟩ := readNumber_item h
  obtain rfl := List.append_cancel_right hitem
  exact ⟨hne, hchars⟩

/-- A number that has been read begins with a character of numbers. -/
theorem readNumber_head {item rest : List Char} {x : Double}
    (h : readNumber (item ++ rest) = some (x, rest)) :
    ∃ ch item', item = ch :: item' ∧ isNumberChar ch := by
  obtain ⟨hne, hchars⟩ := readNumber_chars h
  cases item with
  | nil => exact absurd rfl hne
  | cons ch item => exact ⟨ch, item, rfl, hchars ch List.mem_cons_self⟩

/-- White space before a number is passed over. -/
theorem dropWhile_isSpace_number {blanks item rest : List Char} {x : Double}
    (hblanks : ∀ ch ∈ blanks, isSpace ch) (h : readNumber (item ++ rest) = some (x, rest)) :
    (blanks ++ (item ++ rest)).dropWhile isSpace = item ++ rest := by
  obtain ⟨ch, item', rfl, hch⟩ := readNumber_head h
  rw [List.cons_append, dropWhile_append_stop _ (isSpace_of_isNumberChar hch),
    List.dropWhile_eq_nil_iff.mpr hblanks, List.nil_append]

/-- A number is read after any white space. -/
theorem number_step_blanks {blanks item rest : List Char} {x : Double}
    (hblanks : ∀ ch ∈ blanks, isSpace ch) (h : readNumber (item ++ rest) = some (x, rest)) :
    Directive.number.step (blanks ++ (item ++ rest)) = some ([x], rest) := by
  rw [Directive.step, dropWhile_isSpace_number hblanks h, h]
  rfl

/-- A run of separators ends with the first character that is none. -/
theorem skipSet_step_stop {set separators : List Char} (hne : separators ≠ [])
    (hset : ∀ ch ∈ separators, ch ∈ set) (front : List Char) {ch : Char} (hch : ch ∉ set)
    (rest : List Char) :
    (Directive.skipSet set).step (separators ++ (front ++ ch :: rest)) =
      some ([], front.dropWhile set.contains ++ ch :: rest) := by
  have hall : ∀ ch ∈ separators, set.contains ch := fun ch h => List.contains_iff_mem.mpr (hset ch h)
  have hstop : set.contains ch = false := by simpa using hch
  rw [Directive.step, if_neg, List.dropWhile_append_of_pos hall, dropWhile_append_stop _ hstop]
  rw [List.takeWhile_append_of_pos hall]
  exact fun hnil => hne (List.append_eq_nil_iff.mp hnil).1

/-- A word of a format is read as it is written. -/
theorem scan_word_iff (word : List Char) {format : List Directive} {text rest' : List Char}
    {xs : List Double} :
    scan (word.map .literal ++ format) text = some (xs, rest') ↔
      ∃ rest, text = word ++ rest ∧ scan format rest = some (xs, rest') := by
  induction word generalizing text with
  | nil =>
      constructor
      · intro h
        exact ⟨text, rfl, h⟩
      · rintro ⟨_, rfl, h⟩
        exact h
  | cons ch word ih =>
      constructor
      · intro h
        obtain ⟨_, _, _, hstep, hscan, rfl⟩ := scan_cons_inv h
        obtain ⟨rfl, rfl⟩ := literal_step.mp hstep
        obtain ⟨rest, rfl, hrest⟩ := ih.mp hscan
        exact ⟨rest, rfl, hrest⟩
      · rintro ⟨rest, rfl, hscan⟩
        exact scan_cons (literal_step.mpr ⟨rfl, rfl⟩) (ih.mpr ⟨rest, rfl, hscan⟩)

/-- A number after white space, which the directive before it may have passed over. -/
theorem scan_white_number {blanks item rest rest' : List Char} {x : Double} {xs : List Double}
    (hblanks : ∀ ch ∈ blanks, isSpace ch) (h : readNumber (item ++ rest) = some (x, rest))
    {format : List Directive} (hscan : scan format rest = some (xs, rest')) :
    scan (.white :: .number :: format) (blanks ++ (item ++ rest)) = some (x :: xs, rest') := by
  have hwhite : Directive.white.step (blanks ++ (item ++ rest)) = some ([], item ++ rest) := by
    rw [Directive.step, dropWhile_isSpace_number hblanks h]
  have hnumber : Directive.number.step (item ++ rest) = some ([x], rest) :=
    number_step_blanks (fun _ hch => absurd hch List.not_mem_nil) h
  exact scan_cons hwhite (scan_cons hnumber hscan)

/-- What a format with a number in front has read: the blanks, the number and the rest. -/
theorem scan_white_number_inv {text rest' : List Char} {ys : List Double}
    {format : List Directive}
    (hscan : scan (.white :: .number :: format) text = some (ys, rest')) :
    ∃ blanks item rest x xs, (∀ ch ∈ blanks, isSpace ch) ∧
      readNumber (item ++ rest) = some (x, rest) ∧ text = blanks ++ (item ++ rest) ∧
      scan format rest = some (xs, rest') ∧ ys = x :: xs := by
  obtain ⟨_, _, _, hwhite, hscan', rfl⟩ := scan_cons_inv hscan
  obtain ⟨rfl, blanks, hblanks, rfl⟩ := white_step hwhite
  obtain ⟨_, rest, xs, hnumber, hscan'', rfl⟩ := scan_cons_inv hscan'
  obtain ⟨x, blanks', item, rfl, hblanks', hread, rfl⟩ := number_step hnumber
  refine ⟨blanks ++ blanks', item, rest, x, xs, fun ch hch => ?_, hread,
    (List.append_assoc _ _ _).symm, hscan'', rfl⟩
  rcases List.mem_append.mp hch with hch | hch
  · exact hblanks ch hch
  · exact hblanks' ch hch

/-- Separators, white space and a number, whichever of the first two a blank is part of. -/
theorem scan_separated {set : List Char} (hchars : ∀ ch, isNumberChar ch → ch ∉ set)
    {separators blanks item rest rest' : List Char} {x : Double} {xs : List Double}
    (hne : separators ≠ []) (hset : ∀ ch ∈ separators, ch ∈ set)
    (hblanks : ∀ ch ∈ blanks, isSpace ch) (h : readNumber (item ++ rest) = some (x, rest))
    {format : List Directive} (hscan : scan format rest = some (xs, rest')) :
    scan (.skipSet set :: .white :: .number :: format)
        (separators ++ (blanks ++ (item ++ rest))) = some (x :: xs, rest') := by
  have hset' : (Directive.skipSet set).step (separators ++ (blanks ++ (item ++ rest))) =
      some ([], blanks.dropWhile set.contains ++ (item ++ rest)) := by
    obtain ⟨ch, item', rfl, hch⟩ := readNumber_head h
    exact skipSet_step_stop hne hset blanks (hchars ch hch) (item' ++ rest)
  have hblanks' : ∀ ch ∈ blanks.dropWhile set.contains, isSpace ch := fun ch hch =>
    hblanks ch ((List.dropWhile_suffix _).subset hch)
  exact scan_cons hset' (scan_white_number hblanks' h hscan)

end Scanf
