import VssServer.Numerals
import VssServer.Scalars

/-!
# Range validation

Integers are read exactly, whichever way they reach the server: what does not fit
the type or the range is refused.  With a fraction it is different.  The cast to
the integer type comes before the comparison and cuts the fraction off, so that a
number less than one outside the range, on the side away from zero, is accepted as
the bound itself.

* `stringToNumber_whole`, `stringToNumber_point`: how a numeral is converted.
* `validateRange_integer`: integers are converted exactly or refused.
* `validateRange_holds_iff`: when a number that is accepted lies in the range.
-/

namespace Scalars

open Doubles Numerals

/-- What the server relies on.  A numeric cast truncates and throws exactly if the
result does not fit; a lexical cast of digits returns nothing but their number, and
returns it for the canonical numeral of every value of its type. -/
structure Boost.Documented (boost : Boost) : Prop where
  numericCast_ok {T : IntegerType} {n : Int} {v : Integer T} :
    boost.numericCast T n = .ok v ↔ v.toInt = n
  numericCastDouble_ok {T : IntegerType} {q : ℚ} {v : Integer T} :
    boost.numericCastDouble T (.finite q) = .ok v ↔ v.toInt = trunc q
  lexicalCastInt64_digits {digits : List Char} {v : Integer .int64} : IsDigits digits →
    boost.lexicalCastInt64 (wholeNumeral true digits) = .ok v →
      v.toInt = wholeValue true digits
  lexicalCastInt64_canonical {v : Integer .int64} : v.toInt < 0 →
    boost.lexicalCastInt64 (toString v.toInt) = .ok v
  lexicalCastUInt64_digits {digits : List Char} {v : Integer .uint64} : IsDigits digits →
    boost.lexicalCastUInt64 (wholeNumeral false digits) = .ok v →
      v.toInt = wholeValue false digits
  lexicalCastUInt64_canonical {v : Integer .uint64} :
    boost.lexicalCastUInt64 (toString v.toInt) = .ok v
  lexicalCastDouble_ok {negative : Bool} {whole fraction : List Char} :
    IsDigits whole → IsDigits fraction →
      boost.lexicalCastDouble (pointNumeral negative whole fraction) =
        .ok (.finite (pointValue negative whole fraction))

/-! ### Casts that obey the laws -/

def splitSign : List Char → Bool × List Char
  | '-' :: text => (true, text)
  | text => (false, text)

instance (text : List Char) : Decidable (IsDigits text) :=
  decidable_of_iff (text ≠ [] ∧ text.all Char.isDigit)
    ⟨fun h => ⟨h.1, List.all_eq_true.mp h.2⟩, fun h => ⟨h.ne_nil, List.all_eq_true.mpr h.isDigit⟩⟩

/-- The cast of an integer that is in range, and of no other. -/
def castInteger (T : IntegerType) (n : Int) : Except Exception (Integer T) :=
  if h : T.lowest ≤ n ∧ n ≤ T.max then .ok ⟨n, h.1, h.2⟩ else .error .badNumericCast

def readInteger (T : IntegerType) (str : String) : Except Exception (Integer T) :=
  let (negative, digits) := splitSign str.toList
  if IsDigits digits then castInteger T (wholeValue negative digits) else .error .badLexicalCast

def readDouble (str : String) : Except Exception Double :=
  let (negative, text) := splitSign str.toList
  let whole := text.takeWhile Char.isDigit
  let fraction := (text.dropWhile Char.isDigit).tail
  if IsDigits whole ∧ IsDigits fraction then .ok (.finite (pointValue negative whole fraction))
  else .error .badLexicalCast

/-- The casts for numerals of digits; they read nothing else. -/
def Boost.digits : Boost where
  numericCast := castInteger
  numericCastDouble T
    | .finite q => castInteger T (trunc q)
    | _ => .error .badNumericCast
  lexicalCastInt64 := readInteger .int64
  lexicalCastUInt64 := readInteger .uint64
  lexicalCastDouble := readDouble

/-- The sign is split off a signed numeral. -/
private theorem splitSign_append {whole : List Char} (h : IsDigits whole) (negative : Bool)
    (text : List Char) : splitSign (sign negative ++ (whole ++ text)) = (negative, whole ++ text) := by
  cases negative with
  | true => rfl
  | false =>
      cases whole with
      | nil => exact absurd rfl h.ne_nil
      | cons ch whole =>
          have hch : ch ≠ '-' :=
            ne_of_isDigit (h.isDigit ch List.mem_cons_self) (by decide)
          rw [sign, if_neg Bool.false_ne_true, List.nil_append, List.cons_append, splitSign]
          simpa using hch

/-- A conversion succeeds where it keeps the value. -/
private theorem castInteger_ok_iff {T : IntegerType} {n : Int} {v : Integer T} :
    castInteger T n = .ok v ↔ v.toInt = n := by
  rw [castInteger]
  split_ifs with h
  · rw [Except.ok.injEq, Integer.ext_iff]
    exact eq_comm
  · constructor
    · intro hv
      cases hv
    · rintro rfl
      exact absurd ⟨v.lowest_le, v.le_max⟩ h

/-- A whole numeral is read as its value, if the type has it. -/
private theorem readInteger_whole {T : IntegerType} {negative : Bool} {digits : List Char}
    (h : IsDigits digits) :
    readInteger T (wholeNumeral negative digits) =
      castInteger T (wholeValue negative digits) := by
  have hsplit := splitSign_append h negative []
  rw [List.append_nil] at hsplit
  rw [readInteger, wholeNumeral, String.toList_ofList, hsplit]
  exact if_pos h

/-- An integer is read back from its numeral. -/
private theorem readInteger_toString {T : IntegerType} (v : Integer T) :
    readInteger T (toString v.toInt) = .ok v := by
  rw [toString_eq_wholeNumeral, readInteger_whole (isDigits_toDigits _), wholeValue_toDigits]
  exact castInteger_ok_iff.mpr rfl

/-- Reading digit by digit is a documented cast. -/
theorem Boost.digits_documented : Boost.digits.Documented where
  numericCast_ok := castInteger_ok_iff
  numericCastDouble_ok := castInteger_ok_iff
  lexicalCastInt64_digits h hv :=
    castInteger_ok_iff.mp ((readInteger_whole h).symm.trans hv)
  lexicalCastInt64_canonical _ := readInteger_toString _
  lexicalCastUInt64_digits h hv :=
    castInteger_ok_iff.mp ((readInteger_whole h).symm.trans hv)
  lexicalCastUInt64_canonical := readInteger_toString _
  lexicalCastDouble_ok {negative whole fraction} hwhole hfraction := by
    have htake := hwhole.takeWhile (by decide : ('.').isDigit = false) fraction
    have hdrop := hwhole.dropWhile (by decide : ('.').isDigit = false) fraction
    have hread : Boost.digits.lexicalCastDouble = readDouble := rfl
    rw [hread, readDouble, pointNumeral, String.toList_ofList, splitSign_append hwhole]
    simp only [htake, hdrop, List.tail_cons]
    exact if_pos ⟨hwhole, hfraction⟩

/-! ### Numbers and the arguments that carry them -/

/-- A string that is written for a rational, with or without a fraction. -/
inductive Decimal : String → ℚ → Prop
  | whole (negative : Bool) {digits : List Char} : IsDigits digits →
      Decimal (wholeNumeral negative digits) (wholeValue negative digits)
  | point (negative : Bool) {whole fraction : List Char} : IsDigits whole → IsDigits fraction →
      Decimal (pointNumeral negative whole fraction) (pointValue negative whole fraction)

/-- What the overloads of `validateRange` are called with. -/
inductive Argument (T : IntegerType)
  | double (x : Double)
  | int (n : Integer .int32)
  | same (n : Integer T)
  | string (s : String)
  | value (value : Response.Value)

namespace Argument

variable {T : IntegerType}

/-- The overload that is called. -/
def validateRange (boost : Boost) (range : RangeInterval (Integer T)) :
    Argument T → Except Exception (Integer T)
  | double x => validateRangeDouble boost x range
  | int n => validateRangeInteger boost n range
  | same n => validateRangeInteger boost n range
  | string s => validateRangeString boost s range
  | value v => validateRangeValue boost v range

/-- An argument that a rational is passed in. -/
inductive Carries : Argument T → ℚ → Prop
  | double (q : ℚ) : Carries (.double (.finite q)) q
  | int (n : Integer .int32) : Carries (.int n) n.toInt
  | same (n : Integer T) : Carries (.same n) n.toInt
  | string {s : String} {q : ℚ} : Decimal s q → Carries (.string s) q
  | valueInt (n : Int) : Carries (.value (.int n)) n
  | valueFloat (q : ℚ) : Carries (.value (.float (.finite q))) q
  | valueString {s : String} {q : ℚ} : Decimal s q → Carries (.value (.string s)) q

/-- An argument that an integer is passed in, a string being its canonical numeral. -/
inductive Spells : Argument T → Int → Prop
  | int (n : Integer .int32) : Spells (.int n) n.toInt
  | same (n : Integer T) : Spells (.same n) n.toInt
  | string (n : Int) : Spells (.string (toString n)) n
  | valueInt (n : Int) : Spells (.value (.int n)) n
  | valueString (n : Int) : Spells (.value (.string (toString n))) n

/-- The number that is compared with the range. -/
def converted (boost : Boost) : Argument T → Except Exception (Integer T)
  | double x => boost.numericCastDouble T x
  | int n => boost.numericCast T n.toInt
  | same n => boost.numericCast T n.toInt
  | string s => stringToNumber boost T s
  | value (.int n) => boost.numericCast T n
  | value (.float x) => boost.numericCastDouble T x
  | value (.string s) => stringToNumber boost T s
  | value _ => .error (.domainError "Unsupported type (not Int, Float or String)")

end Argument

/-- What is returned has passed both comparisons. -/
theorem validateRange_ok_iff {TInput TResult : Type} [LT TResult] [DecidableLT TResult]
    {numericCast : TInput → Except Exception TResult} {value : TInput}
    {range : RangeInterval TResult} {v : TResult} :
    validateRange numericCast value range = .ok v ↔
      numericCast value = .ok v ∧ ¬ v < range.min ∧ ¬ range.max < v := by
  unfold validateRange
  cases hcast : numericCast value with
  | error e => simp [bind, Except.bind]
  | ok result =>
      by_cases hmin : result < range.min
      · simp only [bind, Except.bind, hmin, if_true, Except.ok.injEq]
        constructor
        · intro h
          cases h
        · rintro ⟨rfl, hmin', -⟩
          exact absurd hmin hmin'
      by_cases hmax : range.max < result
      · simp only [bind, Except.bind, pure, Except.pure, hmin, gt_iff_lt, hmax, if_true,
          if_false, Except.ok.injEq]
        constructor
        · intro h
          cases h
        · rintro ⟨rfl, -, hmax'⟩
          exact absurd hmax hmax'
      · simp only [bind, Except.bind, pure, Except.pure, hmin, gt_iff_lt, hmax, if_false,
          Except.ok.injEq]
        constructor
        · rintro rfl
          exact ⟨rfl, hmin, hmax⟩
        · exact And.left

/-- The integers of a range. -/
structure RangeInterval.Contains {T : IntegerType} (range : RangeInterval (Integer T))
    (n : Int) : Prop where
  min_le : range.min.toInt ≤ n
  le_max : n ≤ range.max.toInt

variable {boost : Boost} {T : IntegerType} {range : RangeInterval (Integer T)}

/-- For integers the two comparisons say that the result lies in the range. -/
theorem validateRange_contains_iff {TInput : Type}
    {numericCast : TInput → Except Exception (Integer T)} {value : TInput} {v : Integer T} :
    validateRange numericCast value range = .ok v ↔
      numericCast value = .ok v ∧ range.Contains v.toInt := by
  rw [validateRange_ok_iff, Integer.lt_iff, Integer.lt_iff, not_lt, not_lt]
  exact and_congr_right fun _ => ⟨fun h => ⟨h.1, h.2⟩, fun h => ⟨h.min_le, h.le_max⟩⟩

/-- The check of an integer converts it and compares it with the range. -/
theorem validateRangeInteger_ok_iff (hboost : boost.Documented) {T' : IntegerType}
    {value : Integer T'} {v : Integer T} :
    validateRangeInteger boost value range = .ok v ↔
      v.toInt = value.toInt ∧ range.Contains v.toInt := by
  rw [validateRangeInteger, validateRange_contains_iff, hboost.numericCast_ok]

/-- A number that has its type already is only compared. -/
theorem bind_validateRangeInteger (hboost : boost.Documented)
    (value : Except Exception (Integer T)) {v : Integer T} :
    (value >>= fun value => validateRangeInteger boost value range) = .ok v ↔
      value = .ok v ∧ range.Contains v.toInt := by
  cases value with
  | error e => simp [bind, Except.bind]
  | ok value =>
      refine (validateRangeInteger_ok_iff hboost).trans (and_congr_left fun _ => ?_)
      rw [Except.ok.injEq, Integer.ext_iff]
      exact eq_comm

/-- Whichever overload is called, the number that its cast gives is compared. -/
theorem Argument.validateRange_ok_iff (hboost : boost.Documented) {a : Argument T}
    {v : Integer T} :
    a.validateRange boost range = .ok v ↔
      a.converted boost = .ok v ∧ range.Contains v.toInt := by
  cases a with
  | double x => exact validateRange_contains_iff
  | int n =>
      rw [validateRange, converted, validateRangeInteger_ok_iff hboost, hboost.numericCast_ok]
  | same n =>
      rw [validateRange, converted, validateRangeInteger_ok_iff hboost, hboost.numericCast_ok]
  | string s => exact bind_validateRangeInteger hboost _
  | value value =>
      cases value with
      | int n => exact bind_validateRangeInteger hboost _
      | float x => exact bind_validateRangeInteger hboost _
      | string s => exact bind_validateRangeInteger hboost _
      | _ => simp [validateRange, converted, validateRangeValue]

/-- Without bounds of its own a range refuses nothing that the cast accepts. -/
theorem Argument.validateRange_all (hboost : boost.Documented) {a : Argument T} {v : Integer T} :
    a.validateRange boost (.all T) = .ok v ↔ a.converted boost = .ok v := by
  rw [Argument.validateRange_ok_iff hboost]
  exact and_iff_left ⟨v.lowest_le, v.le_max⟩

/-- An optional value that is there is validated as it is without the option. -/
theorem validateRangeOptional_ok_iff {TValue TResult : Type}
    {validate : TValue → Except Exception TResult} {value : TValue} {r : Option TResult} :
    validateRangeOptional validate (some value) = .ok r ↔
      ∃ v, r = some v ∧ validate value = .ok v := by
  rw [validateRangeOptional]
  cases validate value with
  | error e => simp [bind, Except.bind]
  | ok v => simp [bind, Except.bind, pure, Except.pure, eq_comm]

/-! ### Strings -/

/-- The characters of a whole numeral. -/
private theorem toList_wholeNumeral (negative : Bool) (digits : List Char) :
    (wholeNumeral negative digits).toList = sign negative ++ digits :=
  String.toList_ofList

/-- The characters of a numeral with a point. -/
private theorem toList_pointNumeral (negative : Bool) (whole fraction : List Char) :
    (pointNumeral negative whole fraction).toList = sign negative ++ (whole ++ '.' :: fraction) :=
  String.toList_ofList

section

variable {R : Type} (boost : Boost) (numericCast : Int → Except Exception R)
  (numericCastDouble : Double → Except Exception R)

/-- A numeral without a point is read by the cast that its sign chooses. -/
theorem stringToNumberBy_whole (negative : Bool) {digits : List Char} (h : IsDigits digits) :
    stringToNumberBy boost numericCast numericCastDouble (wholeNumeral negative digits) =
      if negative then
        boost.lexicalCastInt64 (wholeNumeral true digits) >>= fun n => numericCast n.toInt
      else
        boost.lexicalCastUInt64 (wholeNumeral false digits) >>= fun n => numericCast n.toInt := by
  have hpoint : '.' ∉ digits := h.notMem (by decide)
  rw [stringToNumberBy, toList_wholeNumeral]
  cases negative with
  | true => simp [sign, hpoint]
  | false =>
      cases digits with
      | nil => exact absurd rfl h.ne_nil
      | cons ch digits =>
          have hch : ch ≠ '-' :=
            ne_of_isDigit (h.isDigit ch List.mem_cons_self) (by decide)
          rw [sign, if_neg Bool.false_ne_true, List.nil_append]
          simp [hpoint, hch]

/-- A numeral with a point is read as a double. -/
theorem stringToNumberBy_point (negative : Bool) (whole fraction : List Char) :
    stringToNumberBy boost numericCast numericCastDouble
        (pointNumeral negative whole fraction) =
      boost.lexicalCastDouble (pointNumeral negative whole fraction) >>= fun x =>
        numericCastDouble x := by
  rw [stringToNumberBy, toList_pointNumeral]
  have hpoint : '.' ∈ sign negative ++ (whole ++ '.' :: fraction) := by simp
  have hne : sign negative ++ (whole ++ '.' :: fraction) ≠ [] := by simp
  revert hpoint hne
  cases sign negative ++ (whole ++ '.' :: fraction) with
  | nil => exact fun _ hne => absurd rfl hne
  | cons ch text => exact fun hpoint _ => if_pos hpoint

end

/-- A whole numeral goes through the widest type of its sign. -/
theorem stringToNumber_whole (boost : Boost) (T : IntegerType) (negative : Bool)
    {digits : List Char} (h : IsDigits digits) :
    stringToNumber boost T (wholeNumeral negative digits) =
      if negative then
        boost.lexicalCastInt64 (wholeNumeral true digits) >>= fun n =>
          boost.numericCast T n.toInt
      else
        boost.lexicalCastUInt64 (wholeNumeral false digits) >>= fun n =>
          boost.numericCast T n.toInt :=
  stringToNumberBy_whole boost _ _ negative h

/-- A numeral with a point goes through `double`. -/
theorem stringToNumber_point (boost : Boost) (T : IntegerType) (negative : Bool)
    (whole fraction : List Char) :
    stringToNumber boost T (pointNumeral negative whole fraction) =
      boost.lexicalCastDouble (pointNumeral negative whole fraction) >>= fun x =>
        boost.numericCastDouble T x :=
  stringToNumberBy_point boost _ _ negative whole fraction

/-- A sequence succeeds where both parts do. -/
theorem bind_ok_iff {ε α β : Type} {x : Except ε α} {f : α → Except ε β} {b : β} :
    (x >>= f) = .ok b ↔ ∃ a, x = .ok a ∧ f a = .ok b := by
  cases x with
  | error e => simp [bind, Except.bind]
  | ok a => simp [bind, Except.bind]

/-- Digits are read for their number, if they are read at all. -/
theorem stringToNumber_whole_ok (hboost : boost.Documented) {negative : Bool}
    {digits : List Char} (hdigits : IsDigits digits) {v : Integer T}
    (h : stringToNumber boost T (wholeNumeral negative digits) = .ok v) :
    v.toInt = wholeValue negative digits := by
  rw [stringToNumber_whole boost T negative hdigits] at h
  cases negative with
  | true =>
      obtain ⟨n, hn, hv⟩ := bind_ok_iff.mp h
      exact (hboost.numericCast_ok.mp hv).trans (hboost.lexicalCastInt64_digits hdigits hn)
  | false =>
      obtain ⟨n, hn, hv⟩ := bind_ok_iff.mp h
      exact (hboost.numericCast_ok.mp hv).trans (hboost.lexicalCastUInt64_digits hdigits hn)

/-- Negative integers of any type fit into 64 bits. -/
private theorem int64_lowest_le (T : IntegerType) : IntegerType.int64.lowest ≤ T.lowest := by
  cases T <;> decide

/-- So do the positive ones. -/
private theorem le_uint64_max (T : IntegerType) : T.max ≤ IntegerType.uint64.max := by
  cases T <;> decide

/-- The canonical numeral of an integer is read as that integer, or not at all. -/
theorem stringToNumber_toString (hboost : boost.Documented) {n : Int} {v : Integer T} :
    stringToNumber boost T (toString n) = .ok v ↔ v.toInt = n := by
  constructor
  · rw [toString_eq_wholeNumeral]
    intro h
    exact (stringToNumber_whole_ok hboost (isDigits_toDigits _) h).trans (wholeValue_toDigits n)
  · intro hv
    have hlowest := hv ▸ v.lowest_le
    have hmax := hv ▸ v.le_max
    by_cases hn : n < 0
    · -- the sign leads through `int64_t`, which has every negative value of the type
      let n' : Integer .int64 :=
        ⟨n, (int64_lowest_le T).trans hlowest, hn.le.trans (by decide)⟩
      have hread : boost.lexicalCastInt64 (toString n) = .ok n' :=
        hboost.lexicalCastInt64_canonical (v := n') hn
      rw [toString_eq_wholeNumeral, decide_eq_true hn] at hread ⊢
      rw [stringToNumber_whole boost T true (isDigits_toDigits _), if_pos rfl]
      exact bind_ok_iff.mpr ⟨n', hread, hboost.numericCast_ok.mpr hv⟩
    · have hn' : 0 ≤ n := not_lt.mp hn
      let n' : Integer .uint64 := ⟨n, hn', hmax.trans (le_uint64_max T)⟩
      have hread : boost.lexicalCastUInt64 (toString n) = .ok n' :=
        hboost.lexicalCastUInt64_canonical (v := n')
      rw [toString_eq_wholeNumeral, decide_eq_false hn] at hread ⊢
      rw [stringToNumber_whole boost T false (isDigits_toDigits _), if_neg Bool.false_ne_true]
      exact bind_ok_iff.mpr ⟨n', hread, hboost.numericCast_ok.mpr hv⟩

/-- A decimal string is read without its fraction. -/
theorem stringToNumber_decimal (hboost : boost.Documented) {s : String} {q : ℚ}
    (hs : Decimal s q) {v : Integer T} (h : stringToNumber boost T s = .ok v) :
    v.toInt = trunc q := by
  cases hs with
  | whole negative hdigits =>
      rw [trunc_intCast]
      exact stringToNumber_whole_ok hboost hdigits h
  | point negative hwhole hfraction =>
      rw [stringToNumber_point, hboost.lexicalCastDouble_ok hwhole hfraction] at h
      exact hboost.numericCastDouble_ok.mp h

/-- With a fraction, a decimal string whose truncation fits the type is read. -/
theorem stringToNumber_fraction (hboost : boost.Documented) {s : String} {q : ℚ}
    (hs : Decimal s q) (hq : (trunc q : ℚ) ≠ q) {v : Integer T} (hv : v.toInt = trunc q) :
    stringToNumber boost T s = .ok v := by
  cases hs with
  | whole negative hdigits => exact absurd (congrArg _ (trunc_intCast _)) hq
  | point negative hwhole hfraction =>
      rw [stringToNumber_point, hboost.lexicalCastDouble_ok hwhole hfraction]
      exact hboost.numericCastDouble_ok.mpr hv

/-! ### Integers are exact -/

/-- An integer is converted to itself, or not at all. -/
theorem Argument.converted_of_spells (hboost : boost.Documented) {a : Argument T} {n : Int}
    (h : a.Spells n) {v : Integer T} : a.converted boost = .ok v ↔ v.toInt = n := by
  cases h with
  | int n => exact hboost.numericCast_ok
  | same n => exact hboost.numericCast_ok
  | string n => exact stringToNumber_toString hboost
  | valueInt n => exact hboost.numericCast_ok
  | valueString n => exact stringToNumber_toString hboost

/-- **Integers are exact.**  The canonical numeral of an integer is converted to that
integer, if the type has it, and to nothing else; and every overload of `validateRange`
that an integer can be passed to, as a number, as a response value or as its numeral,
with or without an option, returns that integer if the type and the range have it, and
throws if not. -/
theorem validateRange_integer (hboost : boost.Documented) (T : IntegerType)
    (range : RangeInterval (Integer T)) (n : Int) :
    (∀ v : Integer T, stringToNumber boost T (toString n) = .ok v ↔ v.toInt = n) ∧
      ∀ a : Argument T, a.Spells n →
        (∀ v, a.validateRange boost range = .ok v ↔ v.toInt = n ∧ range.Contains n) ∧
        ∀ r, validateRangeOptional (Argument.validateRange boost range) (some a) = .ok r ↔
          ∃ v, r = some v ∧ v.toInt = n ∧ range.Contains n := by
  refine ⟨fun v => stringToNumber_toString hboost, fun a ha => ?_⟩
  have hplain (v : Integer T) :
      a.validateRange boost range = .ok v ↔ v.toInt = n ∧ range.Contains n := by
    rw [Argument.validateRange_ok_iff hboost, a.converted_of_spells hboost ha]
    exact and_congr_right fun hv => by rw [hv]
  refine ⟨hplain, fun r => ?_⟩
  rw [validateRangeOptional_ok_iff]
  exact exists_congr fun v => and_congr_right fun _ => hplain v

/-- 200 is read for eight bits without a sign, and not with one. -/
theorem validateRange_twoHundred :
    stringToNumber Boost.digits .uint8 (toString (200 : Int)) = .ok ⟨200, by decide, by decide⟩ ∧
      ∀ v, stringToNumber Boost.digits .int8 (toString (200 : Int)) ≠ .ok v := by
  refine ⟨((validateRange_integer Boost.digits_documented .uint8 (.all _) 200).1 _).mpr rfl,
    fun v hv => ?_⟩
  have h200 := ((validateRange_integer Boost.digits_documented .int8 (.all _) 200).1 v).mp hv
  exact absurd (h200 ▸ v.le_max) (by decide)

/-! ### Fractions are cut off -/

/-- The rationals of a range. -/
def RangeInterval.Holds (range : RangeInterval (Integer T)) (q : ℚ) : Prop :=
  (range.min.toInt : ℚ) ≤ q ∧ q ≤ range.max.toInt

/-- A rational outside a range whose truncation lies in it. -/
def RangeInterval.CutsOff (range : RangeInterval (Integer T)) (q : ℚ) : Prop :=
  range.min.toInt ≤ range.max.toInt ∧
    ((0 ≤ range.max.toInt ∧ range.max.toInt < q ∧ q < range.max.toInt + 1) ∨
      (range.min.toInt ≤ 0 ∧ range.min.toInt - 1 < q ∧ q < range.min.toInt))

/-- What is passed in is converted to its truncation. -/
theorem Argument.converted_of_carries (hboost : boost.Documented) {a : Argument T} {q : ℚ}
    (ha : a.Carries q) {v : Integer T} (h : a.converted boost = .ok v) : v.toInt = trunc q := by
  cases ha with
  | double q => exact hboost.numericCastDouble_ok.mp h
  | int n => exact (hboost.numericCast_ok.mp h).trans (trunc_intCast _).symm
  | same n => exact (hboost.numericCast_ok.mp h).trans (trunc_intCast _).symm
  | string hs => exact stringToNumber_decimal hboost hs h
  | valueInt n => exact (hboost.numericCast_ok.mp h).trans (trunc_intCast _).symm
  | valueFloat q => exact hboost.numericCastDouble_ok.mp h
  | valueString hs => exact stringToNumber_decimal hboost hs h

/-- With a fraction it is converted whenever the truncation fits the type. -/
theorem Argument.converted_of_fraction (hboost : boost.Documented) {a : Argument T} {q : ℚ}
    (ha : a.Carries q) (hq : (trunc q : ℚ) ≠ q) {v : Integer T} (hv : v.toInt = trunc q) :
    a.converted boost = .ok v := by
  cases ha with
  | double q => exact hboost.numericCastDouble_ok.mpr hv
  | int n => exact absurd (congrArg _ (trunc_intCast _)) hq
  | same n => exact absurd (congrArg _ (trunc_intCast _)) hq
  | string hs => exact stringToNumber_fraction hboost hs hq hv
  | valueInt n => exact absurd (congrArg _ (trunc_intCast _)) hq
  | valueFloat q => exact hboost.numericCastDouble_ok.mpr hv
  | valueString hs => exact stringToNumber_fraction hboost hs hq hv

/-- What is returned is in the range of integers, and so is the number that was passed
in, unless its fraction was cut off at a bound. -/
theorem Argument.validateRange_inside_iff (hboost : boost.Documented) {a : Argument T} {q : ℚ}
    (ha : a.Carries q) :
    (∀ v, a.validateRange boost range = .ok v → range.Holds q) ↔ ¬ range.CutsOff q := by
  rw [RangeInterval.CutsOff, ← trunc_inside_iff]
  constructor
  · rintro h ⟨hmin, hmax⟩
    by_cases hq : (trunc q : ℚ) = q
    · exact ⟨hq ▸ by exact_mod_cast hmin, hq ▸ by exact_mod_cast hmax⟩
    · -- the truncation is a value of the type, because the bounds are
      let v : Integer T :=
        ⟨trunc q, range.min.lowest_le.trans hmin, hmax.trans range.max.le_max⟩
      exact h v ((Argument.validateRange_ok_iff hboost).mpr
        ⟨Argument.converted_of_fraction hboost ha hq rfl, hmin, hmax⟩)
  · intro h v hv
    obtain ⟨hconverted, hmin, hmax⟩ := (Argument.validateRange_ok_iff hboost).mp hv
    rw [Argument.converted_of_carries hboost ha hconverted] at hmin hmax
    exact h ⟨hmin, hmax⟩

/-- **A fraction can lead out of the range.**  Whichever overload a number is passed to,
with or without an option: if the call returns then the number lies in the range,
except for a number less than one beyond a bound on the side away from zero, whose
truncation is that bound. -/
theorem validateRange_holds_iff (hboost : boost.Documented) (T : IntegerType)
    (range : RangeInterval (Integer T)) (a : Argument T) (q : ℚ) (ha : a.Carries q) :
    ((∀ v, a.validateRange boost range = .ok v → range.Holds q) ↔ ¬ range.CutsOff q) ∧
      ((∀ r, validateRangeOptional (Argument.validateRange boost range) (some a) = .ok r →
        range.Holds q) ↔ ¬ range.CutsOff q) := by
  refine ⟨Argument.validateRange_inside_iff hboost ha, ?_⟩
  rw [← Argument.validateRange_inside_iff hboost ha]
  constructor
  · intro h v hv
    exact h (some v) (validateRangeOptional_ok_iff.mpr ⟨v, rfl, hv⟩)
  · intro h r hr
    obtain ⟨v, -, hv⟩ := validateRangeOptional_ok_iff.mp hr
    exact h v hv

/-- A percentage in eight bits. -/
def percentage : RangeInterval (Integer .int8) where
  min := ⟨0, by decide, by decide⟩
  max := ⟨100, by decide, by decide⟩

/-- One above the range is rejected. -/
theorem validateRange_hundredOne :
    ¬ ∃ v, validateRangeDouble Boost.digits (.finite 101) percentage = .ok v := by
  rintro ⟨v, hv⟩
  have hholds : percentage.Holds 101 := by
    refine (validateRange_holds_iff Boost.digits_documented .int8 percentage
      (.double (.finite 101)) 101 (.double _)).1.mpr ?_ v hv
    rintro ⟨-, ⟨-, -, h⟩ | ⟨-, -, h⟩⟩ <;> norm_num [percentage] at h
  have h := hholds.2
  norm_num [percentage] at h

/-- 100.5 is accepted as 100, and -0.5 as an unsigned zero. -/
theorem validateRange_beyond :
    Boost.digits.Documented ∧
      validateRangeDouble Boost.digits (.finite (201 / 2)) percentage = .ok percentage.max ∧
      ¬ percentage.Holds (201 / 2) ∧
      Decimal "-0.5" (-1 / 2) ∧
      validateRangeString Boost.digits "-0.5" (.all .uint8) = .ok (RangeInterval.all .uint8).min ∧
      ¬ (RangeInterval.all .uint8).Holds (-1 / 2) := by
  have hdecimal : Decimal "-0.5" (-1 / 2) := by
    have hvalue : pointValue true ['0'] ['5'] = -1 / 2 := by
      have hdigits : digitsValue (['0'] ++ ['5']) = 5 := rfl
      rw [pointValue, hdigits]
      norm_num [signed]
    have h := Decimal.point true (by decide : IsDigits ['0']) (by decide : IsDigits ['5'])
    rw [hvalue] at h
    exact h
  refine ⟨Boost.digits_documented, ?_, ?_, hdecimal, ?_, ?_⟩
  · refine (Argument.validateRange_ok_iff Boost.digits_documented
      (a := .double (.finite (201 / 2)))).mpr ⟨?_, ⟨?_, ?_⟩⟩
    · exact Boost.digits_documented.numericCastDouble_ok.mpr (by norm_num [trunc, percentage])
    · decide
    · decide
  · rintro ⟨-, h⟩
    norm_num [percentage] at h
  · refine (Argument.validateRange_ok_iff Boost.digits_documented
      (a := .string "-0.5")).mpr ⟨?_, ⟨?_, ?_⟩⟩
    · refine stringToNumber_fraction Boost.digits_documented hdecimal ?_ ?_ <;>
        norm_num [trunc, RangeInterval.all, IntegerType.lowest, IntegerType.isSigned]
    · decide
    · decide
  · rintro ⟨h, -⟩
    norm_num [RangeInterval.all, IntegerType.lowest, IntegerType.isSigned] at h

end Scalars
