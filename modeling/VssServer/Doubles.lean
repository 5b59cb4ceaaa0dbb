import Mathlib.Data.Rat.Floor
import Mathlib.Tactic.Linarith

/-!
# Doubles as rationals

A floating-point number is a rational, one of the two infinities, or no number at
all.  Comparisons are those of IEEE arithmetic: a comparison with what is no
number is false.  This file also has the two ways to make an integer of a
rational: to cut off its fraction, and to round it, half to even.

* `Double`: a rational, an infinity, or no number.
* `trunc`, `roundHalfEven`: the two ways to an integer.
* `not_lt_iff`: what is rejected on neither side lies between the bounds, or is no number.
* `le_trunc_iff`: what truncation does to a bound.
-/

namespace Doubles

/-- A floating-point number without its rounding and without a sign of zero. -/
inductive Double
  | finite (q : ℚ)
  | infinity
  | negInfinity
  | nan
  deriving DecidableEq

namespace Double

def lt : Double → Double → Bool
  | finite q, finite q' => q < q'
  | finite _, infinity => true
  | negInfinity, finite _ => true
  | negInfinity, infinity => true
  | _, _ => false

def le : Double → Double → Bool
  | nan, _ => false
  | _, nan => false
  | finite q, finite q' => q ≤ q'
  | _, infinity => true
  | negInfinity, _ => true
  | _, _ => false

instance : LT Double := ⟨fun x y => x.lt y = true⟩

instance : LE Double := ⟨fun x y => x.le y = true⟩

instance : DecidableLT Double := fun _ _ => inferInstanceAs (Decidable (_ = true))

instance : DecidableLE Double := fun _ _ => inferInstanceAs (Decidable (_ = true))

/-- Finite doubles are compared as rationals. -/
@[simp] theorem finite_lt {q q' : ℚ} : finite q < finite q' ↔ q < q' :=
  decide_eq_true_iff

/-- Finite doubles are compared as rationals. -/
@[simp] theorem finite_le {q q' : ℚ} : finite q ≤ finite q' ↔ q ≤ q' :=
  decide_eq_true_iff

/-- Every number is below infinity. -/
@[simp] theorem finite_lt_infinity (q : ℚ) : finite q < infinity := rfl

/-- Every number is above minus infinity. -/
@[simp] theorem negInfinity_lt_finite (q : ℚ) : negInfinity < finite q := rfl

/-- A NaN is below nothing. -/
@[simp] theorem not_nan_lt (x : Double) : ¬ nan < x := by
  cases x <;> exact Bool.false_ne_true

/-- Nothing is below a NaN. -/
@[simp] theorem not_lt_nan (x : Double) : ¬ x < nan := by
  cases x <;> exact Bool.false_ne_true

/-- Infinity is below nothing. -/
@[simp] theorem not_infinity_lt (x : Double) : ¬ infinity < x := by
  cases x <;> exact Bool.false_ne_true

/-- Nothing is below minus infinity. -/
@[simp] theorem not_lt_negInfinity (x : Double) : ¬ x < negInfinity := by
  cases x <;> exact Bool.false_ne_true

/-- A NaN is at most nothing. -/
@[simp] theorem not_nan_le (x : Double) : ¬ nan ≤ x := by
  cases x <;> exact Bool.false_ne_true

/-- Nothing is at most a NaN. -/
@[simp] theorem not_le_nan (x : Double) : ¬ x ≤ nan := by
  cases x <;> exact Bool.false_ne_true

/-- Infinity exceeds every number. -/
@[simp] theorem not_infinity_le_finite (q : ℚ) : ¬ infinity ≤ finite q :=
  Bool.false_ne_true

/-- Every number exceeds minus infinity. -/
@[simp] theorem not_finite_le_negInfinity (q : ℚ) : ¬ finite q ≤ negInfinity :=
  Bool.false_ne_true

/-- What lies between two rationals is a rational. -/
theorem between_iff {x : Double} {q q' : ℚ} :
    finite q ≤ x ∧ x ≤ finite q' ↔ ∃ r, x = finite r ∧ q ≤ r ∧ r ≤ q' := by
  cases x with
  | finite r => simp
  | _ => simp

/-- **Two rejections are no acceptance.**  What is neither below nor above a range
lies in it, or is no number. -/
theorem not_lt_iff {x : Double} {q q' : ℚ} :
    ¬ x < finite q ∧ ¬ finite q' < x ↔ x = nan ∨ (finite q ≤ x ∧ x ≤ finite q') := by
  cases x with
  | finite r => simp
  | _ => simp

end Double

/-- A rational without its fraction, rounded toward zero. -/
def trunc (q : ℚ) : ℤ :=
  if 0 ≤ q then ⌊q⌋ else ⌈q⌉

/-- Integers are not truncated. -/
@[simp] theorem trunc_intCast (n : ℤ) : trunc n = n := by
  simp [trunc]

/-- The fraction is lost on the side of zero only: an integer that is not below zero
is exceeded by the truncation exactly if it is by the rational rounded down. -/
theorem trunc_le_iff {q : ℚ} {n : ℤ} :
    trunc q ≤ n ↔ if 0 ≤ n then q < n + 1 else q ≤ n := by
  unfold trunc
  split_ifs with hq hn hn
  · exact Int.floor_le_iff
  · have hfloor : 0 ≤ ⌊q⌋ := Int.floor_nonneg.mpr hq
    have hn' : (n : ℚ) < 0 := by exact_mod_cast lt_of_not_ge hn
    constructor
    · intro h
      omega
    · intro h
      linarith
  · have hceil : ⌈q⌉ ≤ 0 := Int.ceil_le.mpr (by push_cast; linarith)
    have hn' : (0 : ℚ) ≤ n := by exact_mod_cast hn
    constructor
    · intro _
      linarith
    · intro _
      omega
  · exact Int.ceil_le

/-- Truncation is towards zero on both sides. -/
@[simp] theorem trunc_neg (q : ℚ) : trunc (-q) = -trunc q := by
  unfold trunc
  rcases lt_trichotomy q 0 with hq | rfl | hq
  · rw [if_pos (by linarith), if_neg (by linarith), Int.floor_neg]
  · simp
  · rw [if_neg (by linarith), if_pos hq.le, Int.ceil_neg]

/-- A bound on a truncated number: up to zero the fraction that is cut off still counts. -/
theorem le_trunc_iff {q : ℚ} {n : ℤ} :
    n ≤ trunc q ↔ if n ≤ 0 then n - 1 < q else (n : ℚ) ≤ q := by
  have h := trunc_le_iff (q := -q) (n := -n)
  rw [trunc_neg, neg_le_neg_iff, Int.cast_neg] at h
  rw [h]
  by_cases hn : n ≤ 0
  · rw [if_pos hn, if_pos (by omega)]
    constructor <;> intro _ <;> linarith
  · rw [if_neg hn, if_neg (by omega), neg_le_neg_iff]

/-- Where a rational is truncated into a range of integers that it is not in. -/
theorem trunc_inside_iff {q : ℚ} {lowest highest : ℤ} :
    (lowest ≤ trunc q ∧ trunc q ≤ highest → (lowest : ℚ) ≤ q ∧ q ≤ highest) ↔
      ¬ (lowest ≤ highest ∧ ((0 ≤ highest ∧ highest < q ∧ q < highest + 1) ∨
        (lowest ≤ 0 ∧ lowest - 1 < q ∧ q < lowest))) := by
  constructor
  · rw [le_trunc_iff, trunc_le_iff]
    rintro h ⟨hrange, ⟨hhighest, hlt, hlt'⟩ | ⟨hlowest, hlt, hlt'⟩⟩
    · have hbelow : (lowest : ℚ) ≤ highest := by exact_mod_cast hrange
      rw [if_pos hhighest] at h
      refine absurd (h ⟨?_, hlt'⟩).2 (not_le.mpr hlt)
      split_ifs <;> linarith
    · have habove : (lowest : ℚ) ≤ highest := by exact_mod_cast hrange
      rw [if_pos hlowest] at h
      refine absurd (h ⟨hlt, ?_⟩).1 (not_le.mpr hlt')
      split_ifs <;> linarith
  · intro h hinside
    have hrange : lowest ≤ highest := hinside.1.trans hinside.2
    have hlowest := le_trunc_iff.mp hinside.1
    have hhighest := trunc_le_iff.mp hinside.2
    constructor
    · by_contra hq
      have hq := not_le.mp hq
      split_ifs at hlowest with hnonpos
      · exact h ⟨hrange, .inr ⟨hnonpos, hlowest, hq⟩⟩
      · linarith
    · by_contra hq
      have hq := not_le.mp hq
      split_ifs at hhighest with hnonneg
      · exact h ⟨hrange, .inl ⟨hnonneg, hq, hhighest⟩⟩
      · linarith

/-- A rational rounded to the nearest integer, to the even one of two. -/
def roundHalfEven (q : ℚ) : ℤ :=
  if q - ⌊q⌋ < 1 / 2 then ⌊q⌋
  else if 1 / 2 < q - ⌊q⌋ then ⌊q⌋ + 1
  else if ⌊q⌋ % 2 = 0 then ⌊q⌋
  else ⌊q⌋ + 1

/-- Integers are not rounded. -/
@[simp] theorem roundHalfEven_intCast (n : ℤ) : roundHalfEven n = n := by
  simp [roundHalfEven]

/-- The rounded number is one of the two nearest, and at most one half away. -/
theorem abs_roundHalfEven_sub_le (q : ℚ) : |roundHalfEven q - q| ≤ 1 / 2 := by
  have hfloor := Int.floor_le q
  have hfloor' := Int.lt_floor_add_one q
  rw [abs_le, roundHalfEven]
  split_ifs <;> push_cast <;> constructor <;> linarith

/-- Rounding goes down by less than one. -/
theorem floor_le_roundHalfEven (q : ℚ) : ⌊q⌋ ≤ roundHalfEven q := by
  rw [roundHalfEven]
  split_ifs <;> omega

/-- Rounding stays above an integer. -/
theorem le_roundHalfEven {q : ℚ} {n : ℤ} (h : n ≤ q) : n ≤ roundHalfEven q :=
  (Int.le_floor.mpr h).trans (floor_le_roundHalfEven q)

/-- Rounding stays below an integer. -/
theorem roundHalfEven_le {q : ℚ} {n : ℤ} (h : q ≤ n) : roundHalfEven q ≤ n := by
  have hnear := (abs_le.mp (abs_roundHalfEven_sub_le q)).2
  have hlt : (roundHalfEven q : ℚ) < n + 1 := by linarith
  exact Int.lt_add_one_iff.mp (by exact_mod_cast hlt)

end Doubles
