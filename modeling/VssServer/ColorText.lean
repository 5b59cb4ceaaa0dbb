import VssServer.ColorInput
import VssServer.Printf

/-!
# Colors as strings

A color is printed with one digit after each point.  The text fits the buffer if the
components are in their ranges, and it is of the form that a color is read from, so
that reading it gives the color as it was printed.

* `str`: the text of a color, with the buffer that it is printed to.
* `str_roundTrip`: the text of a color in its ranges is read back as the color that was
  printed.
-/

namespace Scalars

namespace HSVColor

open Doubles Scanf Printf

/-- The format of `HSVColor::str`. -/
def outputFormat : String :=
  "hsv(%.1f, %.1f%%, %.1f%%)"

/-- The text of a color, in a buffer of any size. -/
def formatted (color : HSVColor) : List Char :=
  printf outputFormat.toList [color.hue, color.saturation, color.value]

/-- `HSVColor::str`, with a buffer of 30 characters. -/
def str (color : HSVColor) : List Char :=
  snprintf 30 outputFormat [color.hue, color.saturation, color.value]

/-- A number rounded to one digit after the point, half to even. -/
def roundTenth : Double → Double
  | .finite q => .finite (roundHalfEven (q * 10) / 10)
  | x => x

/-- A color with its components rounded to one digit after the point. -/
def rounded (color : HSVColor) : HSVColor where
  hue := roundTenth color.hue
  saturation := roundTenth color.saturation
  value := roundTenth color.value

/-- The text of three numbers of tenths. -/
def tenthsText (h s v : Nat) : List Char :=
  ['h', 's', 'v', '('] ++ (printTenths h ++ ([',', ' '] ++ (printTenths s ++
    (['%'] ++ ',' :: ([' '] ++ (printTenths v ++ (['%'] ++ [')'])))))))

/-- The characters of the output format. -/
private theorem outputFormat_toList : outputFormat.toList =
    ['h', 's', 'v', '(', '%', '.', '1', 'f', ',', ' ', '%', '.', '1', 'f', '%', '%', ',', ' ',
      '%', '.', '1', 'f', '%', '%', ')'] := by
  decide +kernel

/-- Components that are not below zero are printed as their tenths. -/
theorem formatted_eq {h s v : ℚ} (hh : 0 ≤ h) (hs : 0 ≤ s) (hv : 0 ≤ v) :
    formatted ⟨.finite h, .finite s, .finite v⟩ = tenthsText (tenths h) (tenths s) (tenths v) := by
  rw [formatted, outputFormat_toList, tenthsText, ← printFixed_of_nonneg hh,
    ← printFixed_of_nonneg hs, ← printFixed_of_nonneg hv]
  rfl

/-- The text of tenths is of the form that is read. -/
theorem form_tenthsText (h s v : Nat) :
    Form (tenthsText h s v) (.finite ((h : ℚ) / 10)) (.finite ((s : ℚ) / 10))
      (.finite ((v : ℚ) / 10)) := by
  have hwhite (ch : Char) (hch : ch ∈ ([] : List Char)) : isSpace ch :=
    absurd hch List.not_mem_nil
  have hcomma : IsRun [' ', ','] [',', ' '] := ⟨by decide, by simp⟩
  have hpercent : IsRun [' ', '%'] ['%'] := ⟨by decide, by simp⟩
  refine ⟨['%'] ++ [')'], ?_, .intro hpercent⟩
  have hvalue := readNumber_printTenths v (by decide : ('%').isDigit = false) (by decide) [')']
  have hsaturation := readNumber_printTenths s (by decide : ('%').isDigit = false) (by decide)
    (',' :: ([' '] ++ (printTenths v ++ (['%'] ++ [')']))))
  have hhue := readNumber_printTenths h (by decide : (',').isDigit = false) (by decide)
    (' ' :: (printTenths s ++ (['%'] ++ ',' :: ([' '] ++ (printTenths v ++ (['%'] ++ [')']))))))
  exact @Through.intro _ _ _ [] _ [',', ' '] [] _ ['%'] [' '] _ _ _ _ hwhite hhue hcomma rfl
    hwhite hsaturation hpercent rfl (List.forall_mem_singleton.mpr rfl) hvalue

/-- The text fits the buffer if the components are in their ranges. -/
theorem length_tenthsText_le {h s v : Nat} (hh : h ≤ 3600) (hs : s ≤ 1000) (hv : v ≤ 1000) :
    (tenthsText h s v).length ≤ 26 := by
  have hhue := length_printTenths_le (by decide : 0 < 3) (by omega : h < 10 ^ (3 + 1))
  have hsaturation := length_printTenths_le (by decide : 0 < 3) (by omega : s < 10 ^ (3 + 1))
  have hvalue := length_printTenths_le (by decide : 0 < 3) (by omega : v < 10 ^ (3 + 1))
  simp only [tenthsText, List.length_append, List.length_cons, List.length_nil]
  omega

/-- Tenths that are not below zero are counted by a natural number. -/
theorem roundTenth_of_nonneg {q : ℚ} (h : 0 ≤ q) :
    roundTenth (.finite q) = .finite ((tenths q : ℚ) / 10) := by
  have hround : 0 ≤ roundHalfEven (q * 10) := le_roundHalfEven (by push_cast; linarith)
  have hcast : ((tenths q : ℤ) : ℚ) = roundHalfEven (q * 10) := by
    rw [tenths, Int.toNat_of_nonneg hround]
  rw [roundTenth, ← hcast, Int.cast_natCast]

/-- What is counted in tenths up to a bound passes the check against the bound. -/
theorem passes_tenths {n max : Nat} (h : n ≤ max * 10) :
    Passes max (.finite ((n : ℚ) / 10)) := by
  have hmax : (n : ℚ) ≤ max * 10 := by exact_mod_cast h
  have hn : (0 : ℚ) ≤ n := Nat.cast_nonneg n
  refine passes_iff.mpr (.inr ?_)
  rw [Double.finite_le, Double.finite_le]
  constructor <;> linarith

/-- A rounded color has its tenths as components. -/
theorem rounded_eq {h s v : ℚ} (hh : 0 ≤ h) (hs : 0 ≤ s) (hv : 0 ≤ v) :
    rounded ⟨.finite h, .finite s, .finite v⟩ =
      ⟨.finite ((tenths h : ℚ) / 10), .finite ((tenths s : ℚ) / 10),
        .finite ((tenths v : ℚ) / 10)⟩ := by
  rw [rounded, roundTenth_of_nonneg hh, roundTenth_of_nonneg hs, roundTenth_of_nonneg hv]

/-- A rounded color has the text of the color. -/
theorem formatted_rounded {h s v : ℚ} (hh : 0 ≤ h) (hs : 0 ≤ s) (hv : 0 ≤ v) :
    (rounded ⟨.finite h, .finite s, .finite v⟩).formatted =
      formatted ⟨.finite h, .finite s, .finite v⟩ := by
  rw [rounded_eq hh hs hv, formatted_eq hh hs hv,
    formatted_eq (by positivity) (by positivity) (by positivity)]
  simp only [tenths_div]

/-- A text that fits the buffer is not cut off. -/
theorem str_eq {color : HSVColor} (hfits : color.formatted.length < 30) :
    color.str = color.formatted :=
  List.take_of_length_le (Nat.le_pred_of_lt hfits)

/-- **Printing and reading are inverse on printed colors.**  For a color in its ranges the
text fits the buffer; reading it is accepted, whatever the variable for the count held,
and gives the components rounded to one digit; and these are printed as the same text. -/
theorem str_roundTrip (color : HSVColor) (hcolor : color.InRange) :
    color.formatted.length < 30 ∧ color.str = color.formatted ∧
      (∀ used old, Call.run used old (.ofString color.str) = (color.rounded, .ok ())) ∧
      color.rounded.str = color.str := by
  obtain ⟨hue, saturation, value⟩ := color
  obtain ⟨h, rfl, hh, hh'⟩ := Double.between_iff.mp hcolor.hue
  obtain ⟨s, rfl, hs, hs'⟩ := Double.between_iff.mp hcolor.saturation
  obtain ⟨v, rfl, hv, hv'⟩ := Double.between_iff.mp hcolor.value
  have htenths : tenths h ≤ 360 * 10 := tenths_le (by exact_mod_cast hh')
  have htenths' : tenths s ≤ 100 * 10 := tenths_le (by exact_mod_cast hs')
  have htenths'' : tenths v ≤ 100 * 10 := tenths_le (by exact_mod_cast hv')
  have hformatted := formatted_eq hh hs hv
  have hfits : (formatted ⟨.finite h, .finite s, .finite v⟩).length < 30 := by
    rw [hformatted]
    exact (length_tenthsText_le htenths htenths' htenths'').trans_lt (by decide)
  have hagain := formatted_rounded hh hs hv
  refine ⟨hfits, str_eq hfits, fun used old => ?_, ?_⟩
  · have hform := form_tenthsText (tenths h) (tenths s) (tenths v)
    rw [← hformatted] at hform
    have hscanned := scanned_of_form hform (hfits.trans (by decide)) used
    rw [str_eq hfits, Call.run_eq, Call.numbers, hscanned, rounded_eq hh hs hv]
    simp only [setNumbers_eq]
    rw [if_pos (by exact_mod_cast passes_tenths htenths),
      if_pos (by exact_mod_cast passes_tenths htenths'),
      if_pos (by exact_mod_cast passes_tenths htenths'')]
  · rw [str_eq (hagain.symm ▸ hfits), str_eq hfits, hagain]

/-- A hue just below 360 is rounded up to the bound, and is read back. -/
theorem str_upperBound :
    Call.run 0 ⟨.nan, .nan, .nan⟩
        (.ofString (str ⟨.finite (8999 / 25), .finite 50, .finite 0⟩)) =
      (rounded ⟨.finite (8999 / 25), .finite 50, .finite 0⟩, .ok ()) := by
  refine (str_roundTrip _ ⟨?_, ?_, ?_⟩).2.2.1 0 _
  · exact ⟨Double.finite_le.mpr (by norm_num), Double.finite_le.mpr (by norm_num)⟩
  · exact ⟨Double.finite_le.mpr (by norm_num), Double.finite_le.mpr (by norm_num)⟩
  · exact ⟨Double.finite_le.mpr (by norm_num), Double.finite_le.mpr (by norm_num)⟩

example : str ⟨.finite (8999 / 25), .finite 50, .finite (1 / 5)⟩ =
    "hsv(360.0, 50.0%, 0.2%)".toList := by
  decide +kernel

end HSVColor

end Scalars
