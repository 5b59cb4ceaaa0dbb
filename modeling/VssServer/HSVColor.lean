import VssServer.Scalars
import VssServer.Scanf

/-!
# Colors

A color is set from three numbers, or from a string that three numbers are read
from.  Each number is checked and stored before the next one is checked.  The check
is written as two rejections, and what is no number is not rejected.

The components are exact numbers, infinities or no numbers: the rounding of what is read
and the sign of a zero are left out.  A string is a list of bytes, each a `Char`, and it
is read as ISO C says.

* `setNumbers`: the three checks, each with its store.
* `components_inRange_iff`: when a call that returns leaves all components in their ranges.
* `throws_unchanged_iff`: when a call that throws leaves the color as it was.
-/

namespace Scalars

open Doubles

/-- What the setters of a color throw: `ColorInputStringException` and
`ColorInputRangeException`; other exceptions of the checks pass through. -/
inductive ColorException
  | inputString
  | inputRange
  | other (e : Exception)
  deriving DecidableEq, Repr

/-- The handler of `HSVColor::set`, which catches `std::out_of_range` only. -/
def rangeHandler : Exception → ColorException
  | .outOfRange _ => .inputRange
  | e => .other e

structure HSVColor where
  hue : Double
  saturation : Double
  value : Double
  deriving DecidableEq

namespace HSVColor

/-- The range from zero to a number, both ends included. -/
def upTo (max : ℚ) : RangeInterval Double where
  min := .finite 0
  max := .finite max

/-- `HSVColor::set(double, double, double)`: the color that is left behind, and what is
thrown.  A cast from double to double checks nothing. -/
def setNumbers (color : HSVColor) (h s v : Double) : HSVColor × Except ColorException Unit :=
  match validateRange Except.ok h (upTo 360) with
  | .error e => (color, .error (rangeHandler e))
  | .ok hue =>
      let color := { color with hue := hue }
      match validateRange Except.ok s (upTo 100) with
      | .error e => (color, .error (rangeHandler e))
      | .ok saturation =>
          let color := { color with saturation := saturation }
          match validateRange Except.ok v (upTo 100) with
          | .error e => (color, .error (rangeHandler e))
          | .ok value => ({ color with value := value }, .ok ())

/-- The format of `HSVColor::set(const std::string&)`. -/
def inputFormat : String :=
  "hsv(%lf%*[ ,] %lf%*[ %%], %lf%*[ %%])%n"

/-- The numbers that a string passes on: three must be read, and `used` must be the size
of the string, which a negative `used` never is.  Before the scan `used` is not
initialised. -/
def scanned (used : Int32) (stringInput : List Char) : Option (Double × Double × Double) :=
  let result := Scanf.sscanf stringInput inputFormat
  let used := match result.count with
    | some n => Int32.ofNat n
    | none => used
  match result.numbers with
  | [h, s, v] => if used.toInt = (stringInput.length : Int) then some (h, s, v) else none
  | _ => none

/-- `HSVColor::set(const std::string&)`. -/
def setString (used : Int32) (color : HSVColor) (stringInput : List Char) :
    HSVColor × Except ColorException Unit :=
  match scanned used stringInput with
  | some (h, s, v) => color.setNumbers h s v
  | none => (color, .error .inputString)

/-- The ways to change a color. -/
inductive Update
  | setNumbers (h s v : Double)
  | setString (stringInput : List Char)
  | assign (inputString : List Char)

/-- The ways to give a color its components: the constructors and the updates. -/
inductive Call
  | ofValue (value : Response.Value)
  | ofString (stringInput : List Char)
  | ofNumbers (h s v : Double)
  | update (u : Update)

def Update.run (used : Int32) (color : HSVColor) : Update → HSVColor × Except ColorException Unit
  | .setNumbers h s v => color.setNumbers h s v
  | .setString stringInput => color.setString used stringInput
  | .assign inputString => color.setString used inputString

/-- A constructor starts from components that are not initialised. -/
def Call.run (used : Int32) (color : HSVColor) : Call → HSVColor × Except ColorException Unit
  | .ofValue (.string s) => color.setString used s.toList
  | .ofValue _ => (color, .error .inputString)
  | .ofString stringInput => color.setString used stringInput
  | .ofNumbers h s v => color.setNumbers h s v
  | .update u => u.run used color

/-- The numbers that reach `set(h, s, v)`. -/
def Update.numbers (used : Int32) : Update → Option (Double × Double × Double)
  | .setNumbers h s v => some (h, s, v)
  | .setString stringInput => scanned used stringInput
  | .assign inputString => scanned used inputString

def Call.numbers (used : Int32) : Call → Option (Double × Double × Double)
  | .ofValue (.string s) => scanned used s.toList
  | .ofValue _ => none
  | .ofString stringInput => scanned used stringInput
  | .ofNumbers h s v => some (h, s, v)
  | .update u => u.numbers used

/-- A component that the check lets through. -/
def Passes (max : ℚ) (x : Double) : Prop :=
  ¬ x < .finite 0 ∧ ¬ .finite max < x

instance (max : ℚ) (x : Double) : Decidable (Passes max x) :=
  inferInstanceAs (Decidable (_ ∧ _))

/-- The components of a color as the ranges promise them. -/
structure InRange (color : HSVColor) : Prop where
  hue : .finite 0 ≤ color.hue ∧ color.hue ≤ .finite 360
  saturation : .finite 0 ≤ color.saturation ∧ color.saturation ≤ .finite 100
  value : .finite 0 ≤ color.value ∧ color.value ≤ .finite 100

/-- A component in its range passes. -/
theorem validateRange_passes {max : ℚ} {x : Double} (h : Passes max x) :
    validateRange Except.ok x (upTo max) = .ok x := by
  simp [validateRange, bind, Except.bind, pure, Except.pure, upTo, h.1, h.2]

/-- A component out of its range is rejected. -/
theorem validateRange_rejects {max : ℚ} {x : Double} (h : ¬ Passes max x) :
    ∃ what, validateRange Except.ok x (upTo max) = .error (.outOfRange what) := by
  by_cases hmin : x < .finite 0
  · exact ⟨"Value lower than minimun range", by
      simp [validateRange, bind, Except.bind, throw, throwThe, MonadExceptOf.throw, upTo, hmin]⟩
  · have hmax : .finite max < x := by
      by_contra hmax
      exact h ⟨hmin, hmax⟩
    exact ⟨"Value greater than maximun range", by
      simp [validateRange, bind, Except.bind, throw, throwThe, MonadExceptOf.throw, upTo, hmin,
        hmax]⟩

/-- What `set(h, s, v)` leaves behind: the components before the first that is rejected
are stored. -/
theorem setNumbers_eq (color : HSVColor) (h s v : Double) :
    color.setNumbers h s v =
      if Passes 360 h then
        if Passes 100 s then
          if Passes 100 v then (⟨h, s, v⟩, .ok ())
          else (⟨h, s, color.value⟩, .error .inputRange)
        else (⟨h, color.saturation, color.value⟩, .error .inputRange)
      else (color, .error .inputRange) := by
  unfold setNumbers
  by_cases hh : Passes 360 h
  · rw [if_pos hh, validateRange_passes hh]
    by_cases hs : Passes 100 s
    · rw [if_pos hs, validateRange_passes hs]
      by_cases hv : Passes 100 v
      · rw [if_pos hv, validateRange_passes hv]
      · obtain ⟨what, hwhat⟩ := validateRange_rejects hv
        rw [if_neg hv, hwhat]
        rfl
    · obtain ⟨what, hwhat⟩ := validateRange_rejects hs
      rw [if_neg hs, hwhat]
      rfl
  · obtain ⟨what, hwhat⟩ := validateRange_rejects hh
    rw [if_neg hh, hwhat]
    rfl

/-- All three components are checked. -/
theorem setNumbers_ok_iff {color : HSVColor} {h s v : Double} :
    (color.setNumbers h s v).2 = .ok () ↔ Passes 360 h ∧ Passes 100 s ∧ Passes 100 v := by
  rw [setNumbers_eq]
  split_ifs <;> simp_all

/-- A call does what `set(h, s, v)` does with its numbers; without numbers it throws and
changes nothing. -/
theorem Update.run_eq (used : Int32) (color : HSVColor) (u : Update) :
    u.run used color =
      match u.numbers used with
      | some (h, s, v) => color.setNumbers h s v
      | none => (color, .error .inputString) := by
  cases u <;> rfl

/-- A call sets the three numbers it is given, or those it reads. -/
theorem Call.run_eq (used : Int32) (color : HSVColor) (call : Call) :
    call.run used color =
      match call.numbers used with
      | some (h, s, v) => color.setNumbers h s v
      | none => (color, .error .inputString) := by
  cases call with
  | ofValue value => cases value <;> rfl
  | ofString stringInput => rfl
  | ofNumbers h s v => rfl
  | update u => exact u.run_eq used color

/-! ### Colors out of range -/

/-- The check lets a NaN pass. -/
theorem passes_iff {max : ℚ} {x : Double} :
    Passes max x ↔ x = .nan ∨ (.finite 0 ≤ x ∧ x ≤ .finite max) :=
  Double.not_lt_iff

/-- A number that no check rejects and that is none of the range. -/
theorem passes_inRange_iff {max : ℚ} {x : Double} (h : Passes max x) :
    (.finite 0 ≤ x ∧ x ≤ .finite max) ↔ x ≠ .nan := by
  rcases passes_iff.mp h with rfl | hx
  · simp
  · refine iff_of_true hx ?_
    rintro rfl
    exact Double.not_nan_le _ hx.2

/-- **What is no number passes for a component.**  A call that returns leaves every
component in its range exactly if none of its numbers is NaN, or one of them is rejected
so that it does not return. -/
theorem components_inRange_iff (used : Int32) (color : HSVColor) (call : Call) :
    ((call.run used color).2 = .ok () → (call.run used color).1.InRange) ↔
      ∀ h s v, call.numbers used = some (h, s, v) →
        (h ≠ .nan ∧ s ≠ .nan ∧ v ≠ .nan) ∨
          ¬ Passes 360 h ∨ ¬ Passes 100 s ∨ ¬ Passes 100 v := by
  rw [Call.run_eq]
  cases hnumbers : call.numbers used with
  | none => simp
  | some numbers =>
      obtain ⟨h, s, v⟩ := numbers
      simp only [Option.some.injEq, Prod.mk.injEq, setNumbers_ok_iff]
      constructor
      · rintro hreturns _ _ _ ⟨rfl, rfl, rfl⟩
        by_cases hpasses : Passes 360 h ∧ Passes 100 s ∧ Passes 100 v
        · obtain ⟨hh, hs, hv⟩ := hpasses
          have hin := hreturns ⟨hh, hs, hv⟩
          rw [setNumbers_eq, if_pos hh, if_pos hs, if_pos hv] at hin
          exact .inl ⟨(passes_inRange_iff hh).mp hin.hue, (passes_inRange_iff hs).mp hin.saturation,
            (passes_inRange_iff hv).mp hin.value⟩
        · rw [not_and_or, not_and_or] at hpasses
          exact .inr hpasses
      · rintro hall ⟨hh, hs, hv⟩
        rcases hall h s v ⟨rfl, rfl, rfl⟩ with ⟨hh', hs', hv'⟩ | hrejected | hrejected | hrejected
        · rw [setNumbers_eq, if_pos hh, if_pos hs, if_pos hv]
          exact ⟨(passes_inRange_iff hh).mpr hh', (passes_inRange_iff hs).mpr hs',
            (passes_inRange_iff hv).mpr hv'⟩
        · exact absurd hh hrejected
        · exact absurd hs hrejected
        · exact absurd hv hrejected

/-- A hue that is no number is stored, and is in no range. -/
theorem nan_hue :
    scanned 0 "hsv(nan, 50%, 50%)".toList = some (.nan, .finite 50, .finite 50) ∧
      ∀ color, (Call.run 0 color (.ofString "hsv(nan, 50%, 50%)".toList)).2 = .ok () ∧
        ¬ (Call.run 0 color (.ofString "hsv(nan, 50%, 50%)".toList)).1.InRange := by
  have hscanned : scanned 0 "hsv(nan, 50%, 50%)".toList =
      some (.nan, .finite 50, .finite 50) := by decide +kernel
  refine ⟨hscanned, fun color => ?_⟩
  have hrun : Call.run 0 color (.ofString "hsv(nan, 50%, 50%)".toList) =
      (⟨.nan, .finite 50, .finite 50⟩, .ok ()) := by
    rw [Call.run_eq, Call.numbers, hscanned]
    simp only [setNumbers_eq]
    rw [if_pos (by decide +kernel), if_pos (by decide +kernel), if_pos (by decide +kernel)]
  rw [hrun]
  exact ⟨rfl, fun h => Double.not_le_nan _ h.hue.1⟩

/-! ### Colors that are half set -/

/-- **A rejected color is half set.**  A call that throws leaves the color as it was
exactly if the numbers before the rejected one are those that the color has. -/
theorem throws_unchanged_iff (used : Int32) (color : HSVColor) (u : Update) :
    ((∃ e, (u.run used color).2 = .error e) → (u.run used color).1 = color) ↔
      ∀ h s v, u.numbers used = some (h, s, v) → Passes 360 h →
        (¬ Passes 100 s → h = color.hue) ∧
          (Passes 100 s → ¬ Passes 100 v → h = color.hue ∧ s = color.saturation) := by
  rw [Update.run_eq]
  cases hnumbers : u.numbers used with
  | none => simp
  | some numbers =>
      obtain ⟨h, s, v⟩ := numbers
      obtain ⟨hue, saturation, value⟩ := color
      simp only [Option.some.injEq, Prod.mk.injEq, setNumbers_eq]
      constructor
      · rintro hthrows _ _ _ ⟨rfl, rfl, rfl⟩ hh
        rw [if_pos hh] at hthrows
        constructor
        · intro hs
          rw [if_neg hs] at hthrows
          exact congrArg HSVColor.hue (hthrows ⟨_, rfl⟩)
        · intro hs hv
          rw [if_pos hs, if_neg hv] at hthrows
          have heq := hthrows ⟨_, rfl⟩
          exact ⟨congrArg HSVColor.hue heq, congrArg HSVColor.saturation heq⟩
      · rintro hall ⟨e, he⟩
        by_cases hh : Passes 360 h
        · obtain ⟨hsaturation, hvalue⟩ := hall h s v ⟨rfl, rfl, rfl⟩ hh
          rw [if_pos hh] at he ⊢
          by_cases hs : Passes 100 s
          · rw [if_pos hs] at he ⊢
            by_cases hv : Passes 100 v
            · rw [if_pos hv] at he
              cases he
            · rw [if_neg hv]
              obtain ⟨rfl, rfl⟩ := hvalue hs hv
              rfl
          · rw [if_neg hs]
            obtain rfl := hsaturation hs
            rfl
        · rw [if_neg hh]

/-- A saturation of 101 is refused, and the new hue stays. -/
theorem hue_stays :
    Update.run 0 ⟨.finite 10, .finite 20, .finite 30⟩
        (.setNumbers (.finite 50) (.finite 101) (.finite 3)) =
      (⟨.finite 50, .finite 20, .finite 30⟩, .error .inputRange) ∧
      (⟨.finite 50, .finite 20, .finite 30⟩ : HSVColor) ≠
        ⟨.finite 10, .finite 20, .finite 30⟩ := by
  refine ⟨?_, by decide +kernel⟩
  rw [Update.run_eq, Update.numbers]
  simp only [setNumbers_eq]
  rw [if_pos (by decide +kernel), if_neg (by decide +kernel)]

end HSVColor

end Scalars
