import VssServer.RangeValidation

/-!
# Range validation of floating-point numbers

For `float` and `double` the templates cast first and compare afterwards, as they do
for integers, but these casts round.  What is returned has passed the comparisons
after its rounding; since the bounds are numbers of the type, rounding leads no
number of the range out of it, and none into it that lies beyond the next number of
the type.  What is no number passes every comparison.

* `FloatingCast.Documented`: what is relied on of the casts to `float` and `double`.
* `FloatingCast.exact_documented`: a cast that meets it.
* `validateRange_floating`: every overload with a floating-point result returns what its cast
  gives, if that lies in the range or is no number.
-/

namespace Scalars

open Doubles Numerals

/-- The floating-point types that the templates are instantiated for. -/
inductive FloatingType
  | float | double
  deriving DecidableEq, Repr

/-- `boost::numeric_cast` to a floating-point type, from integers and from doubles. -/
structure FloatingCast where
  numericCast (T : FloatingType) (n : Int) : Except Exception Double
  numericCastDouble (T : FloatingType) (x : Double) : Except Exception Double

section

variable (boost : Boost) (cast : FloatingCast) (T : FloatingType)

/-- `stringToNumber`, for a floating-point result. -/
def stringToFloating (str : String) : Except Exception Double :=
  stringToNumberBy boost (cast.numericCast T) (cast.numericCastDouble T) str

/-- `validateRange` of a number that has the type of the result: its cast does nothing. -/
def validateRangeFloating (value : Double) (range : RangeInterval Double) :
    Except Exception Double :=
  validateRange Except.ok value range

/-- `validateRange` of a string, for a floating-point result. -/
def validateRangeFloatingString (value : String) (range : RangeInterval Double) :
    Except Exception Double := do
  validateRangeFloating (← stringToFloating boost cast T value) range

/-- `validateRange` of a response value, for a floating-point result. -/
def validateRangeFloatingValue (value : Response.Value) (range : RangeInterval Double) :
    Except Exception Double :=
  match value with
  | .int n => do validateRangeFloating (← cast.numericCast T n) range
  | .float x => do validateRangeFloating (← cast.numericCastDouble T x) range
  | .string s => validateRangeFloatingString boost cast T s range
  | _ => .error (.domainError "Unsupported type (not Int, Float or String)")

end

/-- What the overloads with a floating-point result are called with. -/
inductive FloatingArgument
  | same (x : Double)
  | string (s : String)
  | value (value : Response.Value)

namespace FloatingArgument

/-- The overload that is called. -/
def validateRange (boost : Boost) (cast : FloatingCast) (T : FloatingType)
    (range : RangeInterval Double) : FloatingArgument → Except Exception Double
  | same x => validateRangeFloating x range
  | string s => validateRangeFloatingString boost cast T s range
  | value v => validateRangeFloatingValue boost cast T v range

/-- The number that is compared with the range. -/
def converted (boost : Boost) (cast : FloatingCast) (T : FloatingType) :
    FloatingArgument → Except Exception Double
  | same x => .ok x
  | string s => stringToFloating boost cast T s
  | value (.int n) => cast.numericCast T n
  | value (.float x) => cast.numericCastDouble T x
  | value (.string s) => stringToFloating boost cast T s
  | value _ => .error (.domainError "Unsupported type (not Int, Float or String)")

/-- An argument that a rational is passed in. -/
inductive Carries : FloatingArgument → ℚ → Prop
  | same (q : ℚ) : Carries (.same (.finite q)) q
  | string {s : String} {q : ℚ} : Decimal s q → Carries (.string s) q
  | valueInt (n : Int) : Carries (.value (.int n)) n
  | valueFloat (q : ℚ) : Carries (.value (.float (.finite q))) q
  | valueString {s : String} {q : ℚ} : Decimal s q → Carries (.value (.string s)) q

end FloatingArgument

variable {boost : Boost} {cast : FloatingCast} {T : FloatingType}
  {representable : FloatingType → ℚ → Prop} {range : RangeInterval Double}

/-- A rounding of `q`: no number of the type lies between the two. -/
structure Rounds (representable : FloatingType → ℚ → Prop) (T : FloatingType) (q : ℚ)
    (x : Double) : Prop where
  le : ∀ b, representable T b → q ≤ b → x ≤ .finite b
  ge : ∀ b, representable T b → b ≤ q → .finite b ≤ x

/-- What the server relies on.  Casts that return a number have rounded the one they
were given, and a cast to `double` of a double does nothing; digits are read for their
number, and with a point for a rounding of it; a `float` is a `double`. -/
structure FloatingCast.Documented (boost : Boost) (cast : FloatingCast)
    (representable : FloatingType → ℚ → Prop) : Prop where
  float_double {q : ℚ} : representable .float q → representable .double q
  numericCast_ok {T : FloatingType} {n : Int} {x : Double} :
    cast.numericCast T n = .ok x → Rounds representable T n x
  numericCastDouble_ok {T : FloatingType} {q : ℚ} {x : Double} :
    cast.numericCastDouble T (.finite q) = .ok x → Rounds representable T q x
  numericCastDouble_same {x y : Double} :
    cast.numericCastDouble .double x = .ok y → y = x
  numericCastDouble_special {x y : Double} : (∀ q, x ≠ .finite q) →
    cast.numericCastDouble .float x = .ok y → y = x
  lexicalCastInt64_digits {digits : List Char} {v : Integer .int64} : IsDigits digits →
    boost.lexicalCastInt64 (wholeNumeral true digits) = .ok v →
      v.toInt = wholeValue true digits
  lexicalCastUInt64_digits {digits : List Char} {v : Integer .uint64} : IsDigits digits →
    boost.lexicalCastUInt64 (wholeNumeral false digits) = .ok v →
      v.toInt = wholeValue false digits
  lexicalCastDouble_ok {negative : Bool} {whole fraction : List Char} {x : Double} :
    IsDigits whole → IsDigits fraction →
      boost.lexicalCastDouble (pointNumeral negative whole fraction) = .ok x →
        Rounds representable .double (pointValue negative whole fraction) x

/-- A representable number rounds to itself. -/
theorem Rounds.refl (q : ℚ) : Rounds representable T q (.finite q) where
  le _ _ h := Double.finite_le.mpr h
  ge _ _ h := Double.finite_le.mpr h

/-- A cast of what has been rounded to a double. -/
theorem Rounds.castDouble (hcast : cast.Documented boost representable) {q : ℚ} {x y : Double}
    (h : Rounds representable .double q x) (hy : cast.numericCastDouble T x = .ok y) :
    Rounds representable T q y := by
  cases T with
  | double =>
      rw [hcast.numericCastDouble_same hy]
      exact h
  | float =>
      by_cases hx : ∃ r, x = .finite r
      · obtain ⟨r, rfl⟩ := hx
        have hr := hcast.numericCastDouble_ok hy
        refine ⟨fun b hb hq => hr.le b hb ?_, fun b hb hq => hr.ge b hb ?_⟩
        · exact Double.finite_le.mp (h.le b (hcast.float_double hb) hq)
        · exact Double.finite_le.mp (h.ge b (hcast.float_double hb) hq)
      · rw [hcast.numericCastDouble_special (not_exists.mp hx) hy]
        exact ⟨fun b hb => h.le b (hcast.float_double hb),
          fun b hb => h.ge b (hcast.float_double hb)⟩

/-- A decimal string is read for a rounding of its number. -/
theorem stringToFloating_rounds (hcast : cast.Documented boost representable) {s : String}
    {q : ℚ} (hs : Decimal s q) {x : Double} (h : stringToFloating boost cast T s = .ok x) :
    Rounds representable T q x := by
  rw [stringToFloating] at h
  cases hs with
  | @whole negative digits hdigits =>
      rw [stringToNumberBy_whole boost _ _ negative hdigits] at h
      cases negative with
      | true =>
          obtain ⟨n, hn, hx⟩ := bind_ok_iff.mp h
          rw [← hcast.lexicalCastInt64_digits hdigits hn]
          exact hcast.numericCast_ok hx
      | false =>
          obtain ⟨n, hn, hx⟩ := bind_ok_iff.mp h
          rw [← hcast.lexicalCastUInt64_digits hdigits hn]
          exact hcast.numericCast_ok hx
  | point negative hwhole hfraction =>
      rw [stringToNumberBy_point] at h
      obtain ⟨y, hy, hx⟩ := bind_ok_iff.mp h
      exact (hcast.lexicalCastDouble_ok hwhole hfraction hy).castDouble hcast hx

/-- The check compares on both sides and returns its argument. -/
theorem validateRangeFloating_ok_iff {x v : Double} :
    validateRangeFloating x range = .ok v ↔ x = v ∧ ¬ v < range.min ∧ ¬ range.max < v := by
  rw [validateRangeFloating, validateRange_ok_iff, Except.ok.injEq]

/-- The check of a converted value. -/
private theorem bind_validateRangeFloating {value : Except Exception Double} {v : Double} :
    (value >>= fun value => validateRangeFloating value range) = .ok v ↔
      value = .ok v ∧ ¬ v < range.min ∧ ¬ range.max < v := by
  rw [bind_ok_iff]
  constructor
  · rintro ⟨x, rfl, hx⟩
    obtain ⟨rfl, hinside⟩ := validateRangeFloating_ok_iff.mp hx
    exact ⟨rfl, hinside⟩
  · rintro ⟨rfl, hinside⟩
    exact ⟨v, rfl, validateRangeFloating_ok_iff.mpr ⟨rfl, hinside⟩⟩

/-- Whichever overload is called, the number that its cast gives is compared. -/
theorem FloatingArgument.validateRange_ok_iff {a : FloatingArgument} {v : Double} :
    a.validateRange boost cast T range = .ok v ↔
      a.converted boost cast T = .ok v ∧ ¬ v < range.min ∧ ¬ range.max < v := by
  cases a with
  | same x =>
      rw [validateRange, converted, validateRangeFloating_ok_iff, Except.ok.injEq]
  | string s => exact bind_validateRangeFloating
  | value value =>
      cases value with
      | int n => exact bind_validateRangeFloating
      | float x => exact bind_validateRangeFloating
      | string s => exact bind_validateRangeFloating
      | _ => simp [validateRange, converted, validateRangeFloatingValue]

/-- Whatever way a number comes, what is compared is a rounding of it. -/
theorem FloatingArgument.converted_rounds (hcast : cast.Documented boost representable)
    {a : FloatingArgument} {q : ℚ} (ha : a.Carries q) {x : Double}
    (h : a.converted boost cast T = .ok x) : Rounds representable T q x := by
  cases ha with
  | same q =>
      obtain rfl := Except.ok.inj h
      exact .refl q
  | string hs => exact stringToFloating_rounds hcast hs h
  | valueInt n => exact hcast.numericCast_ok h
  | valueFloat q => exact hcast.numericCastDouble_ok h
  | valueString hs => exact stringToFloating_rounds hcast hs h

/-- The bounds of a range are numbers of the type. -/
structure RangeInterval.Bounded (representable : FloatingType → ℚ → Prop) (T : FloatingType)
    (range : RangeInterval Double) (min max : ℚ) : Prop where
  min_eq : range.min = .finite min
  max_eq : range.max = .finite max
  min_representable : representable T min
  max_representable : representable T max

/-- Rounding leads no number of a range out of it. -/
theorem Rounds.inside {min max : ℚ} (hmin : representable T min) (hmax : representable T max)
    {q : ℚ} {x : Double} (h : Rounds representable T q x) (hq : min ≤ q) (hq' : q ≤ max) :
    .finite min ≤ x ∧ x ≤ .finite max :=
  ⟨h.ge min hmin hq, h.le max hmax hq'⟩

/-- What a number of the type is on one side of is a number, and so is its rounding. -/
theorem Rounds.ne_nan {b : ℚ} (hb : representable T b) {q : ℚ} {x : Double}
    (h : Rounds representable T q x) : x ≠ .nan := by
  rintro rfl
  rcases le_total b q with hq | hq
  · exact Double.not_le_nan _ (h.ge b hb hq)
  · exact Double.not_nan_le _ (h.le b hb hq)

/-- What is rounded into a range lies before the next number of the type. -/
theorem Rounds.before {min max : ℚ} {q : ℚ} {x : Double} (h : Rounds representable T q x)
    (hx : .finite min ≤ x ∧ x ≤ .finite max) {b : ℚ} (hb : representable T b) :
    (max < b → q < b) ∧ (b < min → b < q) := by
  obtain ⟨r, rfl, hmin, hmax⟩ := Double.between_iff.mp hx
  constructor
  · intro hbeyond
    by_contra hq
    have hle := Double.finite_le.mp (h.ge b hb (not_lt.mp hq))
    exact absurd (hle.trans hmax) (not_le.mpr hbeyond)
  · intro hbeyond
    by_contra hq
    have hle := Double.finite_le.mp (h.le b hb (not_lt.mp hq))
    exact absurd (hmin.trans hle) (not_le.mpr hbeyond)

/-- **Floating-point ranges.**  Every overload with a `float` or `double` result, with or
without an option, returns what its cast gives if that lies in the range or is no number,
and throws if not.  So a number of the range is accepted whenever its cast returns, and a
number that is accepted lies before the next number of the type beyond either bound. -/
theorem validateRange_floating (hcast : cast.Documented boost representable)
    {min max : ℚ} (hrange : range.Bounded representable T min max) (a : FloatingArgument) :
    (∀ v, a.validateRange boost cast T range = .ok v ↔
      a.converted boost cast T = .ok v ∧ (v = .nan ∨ range.min ≤ v ∧ v ≤ range.max)) ∧
    (∀ r, validateRangeOptional (FloatingArgument.validateRange boost cast T range) (some a) =
        .ok r ↔ ∃ v, r = some v ∧ a.validateRange boost cast T range = .ok v) ∧
    ∀ q, a.Carries q →
      (min ≤ q → q ≤ max → ∀ v, a.converted boost cast T = .ok v →
        a.validateRange boost cast T range = .ok v) ∧
      ∀ v, a.validateRange boost cast T range = .ok v →
        ∀ b, representable T b → (max < b → q < b) ∧ (b < min → b < q) := by
  have hplain (v : Double) : a.validateRange boost cast T range = .ok v ↔
      a.converted boost cast T = .ok v ∧ (v = .nan ∨ range.min ≤ v ∧ v ≤ range.max) := by
    rw [FloatingArgument.validateRange_ok_iff, hrange.min_eq, hrange.max_eq, Double.not_lt_iff]
  refine ⟨hplain, fun r => validateRangeOptional_ok_iff, fun q ha => ⟨?_, ?_⟩⟩
  · intro hmin hmax v hv
    have hrounds := a.converted_rounds hcast ha hv
    refine (hplain v).mpr ⟨hv, .inr ?_⟩
    rw [hrange.min_eq, hrange.max_eq]
    exact hrounds.inside hrange.min_representable hrange.max_representable hmin hmax
  · intro v hv b hb
    obtain ⟨hconverted, hnan | hinside⟩ := (hplain v).mp hv
    · have hrounds := a.converted_rounds hcast ha hconverted
      exact absurd hnan (hrounds.ne_nan hrange.min_representable)
    · rw [hrange.min_eq, hrange.max_eq] at hinside
      exact (a.converted_rounds hcast ha hconverted).before hinside hb

/-- The digits of a significand, in binary. -/
def FloatingType.digits : FloatingType → Nat
  | .float => 24
  | .double => 53

/-- The exponents of a significand that is a whole number. -/
def FloatingType.exponents : FloatingType → Set ℤ
  | .float => {e | -149 ≤ e ∧ e ≤ 104}
  | .double => {e | -1074 ≤ e ∧ e ≤ 971}

/-- The finite numbers of a type. -/
def FloatingType.Represents (T : FloatingType) (q : ℚ) : Prop :=
  ∃ m : ℤ, |m| < 2 ^ T.digits ∧ ∃ e ∈ T.exponents, q = m * 2 ^ e

/-- A `float` is a `double`. -/
theorem FloatingType.float_double {q : ℚ} (h : Represents .float q) : Represents .double q := by
  obtain ⟨m, hm, e, ⟨hlow, hhigh⟩, rfl⟩ := h
  refine ⟨m, hm.trans (by norm_num [digits]), e, ⟨?_, ?_⟩, rfl⟩
  · exact le_trans (by norm_num) hlow
  · exact hhigh.trans (by norm_num)

/-- Whole numbers with few enough digits. -/
theorem FloatingType.represents_int {m : ℤ} (h : |m| < 2 ^ T.digits) : T.Represents m := by
  refine ⟨m, h, 0, ?_, by simp⟩
  cases T <;> norm_num [exponents]

/-- Casts that need not round. -/
def FloatingCast.exact : FloatingCast where
  numericCast _ n := .ok (.finite n)
  numericCastDouble _ x := .ok x

/-- The exact cast is a documented one. -/
theorem FloatingCast.exact_documented :
    FloatingCast.exact.Documented Boost.digits FloatingType.Represents where
  float_double := FloatingType.float_double
  numericCast_ok h := by
    obtain rfl := Except.ok.inj h
    exact .refl _
  numericCastDouble_ok h := by
    obtain rfl := Except.ok.inj h
    exact .refl _
  numericCastDouble_same h := (Except.ok.inj h).symm
  numericCastDouble_special _ h := (Except.ok.inj h).symm
  lexicalCastInt64_digits := Boost.digits_documented.lexicalCastInt64_digits
  lexicalCastUInt64_digits := Boost.digits_documented.lexicalCastUInt64_digits
  lexicalCastDouble_ok hwhole hfraction h := by
    rw [Boost.digits_documented.lexicalCastDouble_ok hwhole hfraction] at h
    obtain rfl := Except.ok.inj h
    exact .refl _

/-- The temperatures that a cabin can be set to. -/
def temperature : RangeInterval Double where
  min := .finite (-50)
  max := .finite 50

/-- A temperature within the range passes, one above does not. -/
theorem validateRange_floating_temperature :
    FloatingArgument.validateRange Boost.digits .exact .float temperature
        (.value (.float (.finite (43 / 2)))) = .ok (.finite (43 / 2)) ∧
      ∀ v, FloatingArgument.validateRange Boost.digits .exact .float temperature
        (.value (.int 51)) ≠ .ok v := by
  have hnumber : ∀ m : ℤ, |m| < 2 ^ 24 → FloatingType.Represents .float m := fun _ hm =>
    FloatingType.represents_int hm
  have hrange : temperature.Bounded FloatingType.Represents .float (-50) 50 :=
    ⟨rfl, rfl, mod_cast hnumber (-50) (by norm_num), mod_cast hnumber 50 (by norm_num)⟩
  constructor
  · exact ((validateRange_floating FloatingCast.exact_documented hrange
      (.value (.float (.finite (43 / 2))))).2.2 (43 / 2) (.valueFloat _)).1
      (by norm_num) (by norm_num) _ rfl
  · intro v hv
    have h := ((validateRange_floating FloatingCast.exact_documented hrange
      (.value (.int 51))).2.2 51 (.valueInt 51)).2 v hv 51 (mod_cast hnumber 51 (by norm_num))
    norm_num at h

end Scalars
