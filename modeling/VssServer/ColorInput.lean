import VssServer.HSVColor

/-!
# Colors from strings

A color is read with one `sscanf`.  The string has to be read to its end, which is
seen from the count that the last directive of the format stores.  If the scan ends
before that directive, after three numbers, nothing is stored and the comparison is
made with what the variable happened to hold.

* `Through`: the front of the format reads three numbers and leaves the rest of a text.
* `Form`: a text is written for three numbers.
* `CutOff`: a text ends, for a scan, after its third number.
* `setString_readsForm_iff`: when the setter takes the texts of the form and no others.
-/

namespace Scalars

namespace HSVColor

open Doubles Scanf

/-- The directives through the third number. -/
def front : List Directive :=
  [.literal 'h', .literal 's', .literal 'v', .literal '(', .number, .skipSet [' ', ','], .white,
    .number, .skipSet [' ', '%', '%'], .literal ',', .white, .number]

/-- The directives after the third number. -/
def back : List Directive :=
  [.skipSet [' ', '%', '%'], .literal ')', .count]

/-- The format of `setString`, cut where `%n` may be reached. -/
theorem inputFormat_directives :
    directives none inputFormat.toList = some (front ++ back) := by
  decide +kernel

/-- At least one character of a set, and no other. -/
structure IsRun (set text : List Char) : Prop where
  ne_nil : text ≠ []
  mem : ∀ ch ∈ text, ch ∈ set

/-- A text up to its third number, and what follows.  A number is what `%lf` reads where
it stands. -/
inductive Through : List Char → Double → Double → Double → List Char → Prop
  | intro {h s v : Double}
      {white₁ item₁ separators₁ white₂ item₂ separators₂ white₃ item₃ rest₁ rest₂ rest₃ :
        List Char} :
      (∀ ch ∈ white₁, isSpace ch) → readNumber (item₁ ++ rest₁) = some (h, rest₁) →
      IsRun [' ', ','] separators₁ → rest₁ = separators₁ ++ (white₂ ++ (item₂ ++ rest₂)) →
      (∀ ch ∈ white₂, isSpace ch) → readNumber (item₂ ++ rest₂) = some (s, rest₂) →
      IsRun [' ', '%'] separators₂ → rest₂ = separators₂ ++ ',' :: (white₃ ++ (item₃ ++ rest₃)) →
      (∀ ch ∈ white₃, isSpace ch) → readNumber (item₃ ++ rest₃) = some (v, rest₃) →
      Through (['h', 's', 'v', '('] ++ (white₁ ++ (item₁ ++ rest₁))) h s v rest₃

/-- What has to follow the third number: blanks or percent signs and a bracket. -/
inductive Closes : List Char → List Char → Prop
  | intro {separators tail : List Char} :
      IsRun [' ', '%'] separators → Closes (separators ++ ')' :: tail) tail

/-- A string that is written for three numbers. -/
def Form (text : List Char) (h s v : Double) : Prop :=
  ∃ rest, Through text h s v rest ∧ Closes rest []

/-- A string that is cut off after its third number: what a scan sees of it goes on with
something else than blanks or percent signs and a bracket. -/
def CutOff (text : List Char) : Prop :=
  ∃ h s v rest, Through (cString text) h s v rest ∧ ¬ ∃ tail, Closes rest tail

/-- No symbol of a number is a separator of the first two fields. -/
private theorem notMem_comma (ch : Char) (h : isNumberChar ch) : ch ∉ [' ', ','] := by
  simp only [List.mem_cons, List.not_mem_nil, or_false]
  rintro (rfl | rfl) <;> exact absurd h (by decide)

/-- The second `%` of the set adds nothing. -/
private theorem mem_percent {ch : Char} : ch ∈ [' ', '%', '%'] ↔ ch ∈ [' ', '%'] := by
  simp

/-- A run of separators is skipped up to the next field. -/
private theorem skipSet_percent {separators : List Char} (h : IsRun [' ', '%'] separators)
    {ch : Char} (hch : ch ∉ [' ', '%', '%']) (rest : List Char) :
    (Directive.skipSet [' ', '%', '%']).step (separators ++ ch :: rest) =
      some ([], ch :: rest) :=
  skipSet_step_stop h.ne_nil (fun ch hch => mem_percent.mpr (h.mem ch hch)) [] hch rest

/-- The scan reaches the third number exactly on the texts of that form. -/
theorem scan_front_iff {text rest : List Char} {xs : List Double} :
    scan front text = some (xs, rest) ↔
      ∃ h s v, xs = [h, s, v] ∧ Through text h s v rest := by
  constructor
  · intro hscan
    obtain ⟨_, rfl, hscan₁⟩ := (scan_word_iff ['h', 's', 'v', '(']).mp hscan
    obtain ⟨_, _, _, hhue, hscan₂, rfl⟩ := scan_cons_inv hscan₁
    obtain ⟨h, white₁, item₁, rfl, hwhite₁, hread₁, rfl⟩ := number_step hhue
    obtain ⟨_, _, _, hseparators₁, hscan₃, rfl⟩ := scan_cons_inv hscan₂
    obtain ⟨rfl, separators₁, hne₁, hmem₁, rfl⟩ := skipSet_step hseparators₁
    obtain ⟨white₂, item₂, _, s, _, hwhite₂, hread₂, rfl, hscan₄, rfl⟩ :=
      scan_white_number_inv hscan₃
    obtain ⟨_, _, _, hseparators₂, hscan₅, rfl⟩ := scan_cons_inv hscan₄
    obtain ⟨rfl, separators₂, hne₂, hmem₂, rfl⟩ := skipSet_step hseparators₂
    obtain ⟨_, rfl, hscan₆⟩ := (scan_word_iff [',']).mp hscan₅
    obtain ⟨white₃, item₃, _, v, _, hwhite₃, hread₃, rfl, hscan₇, rfl⟩ :=
      scan_white_number_inv hscan₆
    cases hscan₇
    exact ⟨h, s, v, rfl, .intro hwhite₁ hread₁ ⟨hne₁, hmem₁⟩ rfl hwhite₂ hread₂
      ⟨hne₂, fun ch hch => mem_percent.mp (hmem₂ ch hch)⟩ rfl hwhite₃ hread₃⟩
  · rintro ⟨h, s, v, rfl, hthrough⟩
    obtain ⟨hwhite₁, hread₁, hrun₁, rfl, hwhite₂, hread₂, hrun₂, rfl, hwhite₃, hread₃⟩ :=
      hthrough
    have hvalue : scan [.white, .number] (_ ++ (_ ++ rest)) = some ([v], rest) :=
      scan_white_number hwhite₃ hread₃ rfl
    have hcomma := (scan_word_iff [',']).mpr ⟨_, rfl, hvalue⟩
    have hpercent := scan_cons (skipSet_percent hrun₂ (by decide : ',' ∉ _) _) hcomma
    have hsaturation := scan_separated notMem_comma hrun₁.ne_nil hrun₁.mem hwhite₂ hread₂ hpercent
    have hhue := scan_cons (number_step_blanks hwhite₁ hread₁) hsaturation
    exact (scan_word_iff ['h', 's', 'v', '(']).mpr ⟨_, rfl, hhue⟩

/-- The last directive is reached exactly if the number is followed by its end. -/
theorem run_back_closes {size : Nat} {rest tail : List Char} (h : Closes rest tail) :
    run size back rest = { count := some (size - tail.length) } := by
  obtain ⟨hrun⟩ := h
  rw [back, run, skipSet_percent hrun (by decide)]
  rfl

/-- Where the text does not close, `%n` is not reached. -/
theorem run_back_open {size : Nat} {rest : List Char} (h : ¬ ∃ tail, Closes rest tail) :
    run size back rest = {} := by
  rw [back, run]
  split
  · rfl
  · rename_i xs rest' hstep
    obtain ⟨rfl, separators, hne, hmem, rfl⟩ := skipSet_step hstep
    rw [run]
    split
    · rfl
    · rename_i hliteral
      obtain ⟨rfl, rfl⟩ := literal_step.mp hliteral
      exact absurd ⟨_, .intro ⟨hne, fun ch hch => mem_percent.mp (hmem ch hch)⟩⟩ h

/-! ### What reaches the setter -/

/-- The front of the format reads the three numbers and no `%n`. -/
theorem count_notMem_front : Directive.count ∉ front := by
  decide

/-- Without a third number nothing reaches the setter. -/
theorem scanned_short {text : List Char}
    (h : ¬ ∃ h s v rest, Through (cString text) h s v rest) (used : Int32) :
    scanned used text = none := by
  have hfront : scan front (cString text) = none := by
    cases hscan : scan front (cString text) with
    | none => rfl
    | some result =>
        obtain ⟨_, s, v, -, hthrough⟩ := scan_front_iff.mp hscan
        exact absurd ⟨_, s, v, _, hthrough⟩ h
  have hlast : front = front.dropLast ++ [.number] := rfl
  have hnumbers : (sscanf text inputFormat).numbers.length ≤ 2 := by
    rw [hlast] at hfront
    rw [sscanf, inputFormat_directives]
    exact run_numbers_le hfront back
  rw [scanned]
  split
  · rename_i hthree
    rw [hthree] at hnumbers
    exact absurd hnumbers (by simp)
  · rfl

/-- After a third number the scan goes on with the rest. -/
theorem sscanf_through {text rest : List Char} {h s v : Double}
    (hthrough : Through (cString text) h s v rest) :
    sscanf text inputFormat =
      { numbers := [h, s, v] ++ (run (cString text).length back rest).numbers
        count := (run (cString text).length back rest).count } := by
  have hscan := scan_front_iff.mpr ⟨h, s, v, rfl, hthrough⟩
  rw [sscanf, inputFormat_directives]
  exact run_append count_notMem_front hscan back

/-- If the end of the number is there, the characters are counted. -/
theorem scanned_closes {text rest tail : List Char} {h s v : Double}
    (hthrough : Through (cString text) h s v rest) (hcloses : Closes rest tail)
    (used : Int32) :
    scanned used text =
      if (Int32.ofNat ((cString text).length - tail.length)).toInt = (text.length : Int)
      then some (h, s, v) else none := by
  rw [scanned, sscanf_through hthrough, run_back_closes hcloses]
  rfl

/-- If not, the variable is compared as it was. -/
theorem scanned_open {text rest : List Char} {h s v : Double}
    (hthrough : Through (cString text) h s v rest) (hopen : ¬ ∃ tail, Closes rest tail)
    (used : Int32) :
    scanned used text = if used.toInt = (text.length : Int) then some (h, s, v) else none := by
  rw [scanned, sscanf_through hthrough, run_back_open hopen]
  rfl

/-- The front of the format reads a text in one way only. -/
theorem Through.unique {text rest rest' : List Char} {h s v h' s' v' : Double}
    (hthrough : Through text h s v rest) (hthrough' : Through text h' s' v' rest') :
    h = h' ∧ s = s' ∧ v = v' ∧ rest = rest' := by
  have heq := (scan_front_iff.mpr ⟨h, s, v, rfl, hthrough⟩).symm.trans
    (scan_front_iff.mpr ⟨h', s', v', rfl, hthrough'⟩)
  simpa [and_assoc] using heq

/-! ### Texts without NUL -/

/-- White space is not the terminator of a C string. -/
private theorem toNat_ne_zero_of_isSpace {ch : Char} (h : isSpace ch) : ch.toNat ≠ 0 := by
  rcases Bool.or_eq_true_iff.mp h with h | h
  · rw [of_decide_eq_true h]
    decide
  · have hcontrol := of_decide_eq_true (Bool.and_eq_true_iff.mp h).1
    omega

/-- Nor is a character of a number. -/
private theorem toNat_ne_zero_of_isNumberChar {ch : Char} (h : isNumberChar ch) :
    ch.toNat ≠ 0 := by
  have hlt := lt_toNat_of_isNumberChar h
  omega

/-- A number that has been read contains no terminator. -/
private theorem toNat_ne_zero_of_readNumber {item rest : List Char} {x : Double}
    (h : readNumber (item ++ rest) = some (x, rest)) : ∀ ch ∈ item, ch.toNat ≠ 0 :=
  fun ch hch => toNat_ne_zero_of_isNumberChar ((readNumber_chars h).2 ch hch)

/-- Nor does a run of separators. -/
private theorem toNat_ne_zero_of_isRun {set text : List Char} (h : IsRun set text)
    (hset : set.all fun ch => ch.toNat ≠ 0) : ∀ ch ∈ text, ch.toNat ≠ 0 :=
  fun ch hch => of_decide_eq_true (List.all_eq_true.mp hset ch (h.mem ch hch))

/-- A string of the form has no NUL, so that the scan sees all of it. -/
theorem Form.cString_eq {text : List Char} {h s v : Double} (hform : Form text h s v) :
    cString text = text := by
  obtain ⟨rest, hthrough, hcloses⟩ := hform
  rw [cString, List.takeWhile_eq_self_iff]
  intro ch hch
  refine decide_eq_true ?_
  obtain ⟨hwhite₁, hread₁, hrun₁, rfl, hwhite₂, hread₂, hrun₂, rfl, hwhite₃, hread₃⟩ :=
    hthrough
  obtain ⟨hrun₃⟩ := hcloses
  simp only [List.mem_append, List.mem_cons, List.not_mem_nil, or_false] at hch
  rcases hch with (rfl | rfl | rfl | rfl) | hch | hch | hch | hch | hch | hch | rfl | hch |
    hch | hch | rfl
  · decide
  · decide
  · decide
  · decide
  · exact toNat_ne_zero_of_isSpace (hwhite₁ ch hch)
  · exact toNat_ne_zero_of_readNumber hread₁ ch hch
  · exact toNat_ne_zero_of_isRun hrun₁ (by decide) ch hch
  · exact toNat_ne_zero_of_isSpace (hwhite₂ ch hch)
  · exact toNat_ne_zero_of_readNumber hread₂ ch hch
  · exact toNat_ne_zero_of_isRun hrun₂ (by decide) ch hch
  · decide
  · exact toNat_ne_zero_of_isSpace (hwhite₃ ch hch)
  · exact toNat_ne_zero_of_readNumber hread₃ ch hch
  · exact toNat_ne_zero_of_isRun hrun₃ (by decide) ch hch
  · decide

/-- A text of the form contains no terminator before its end, so that all of it is seen. -/
theorem Form.seen {text : List Char} {h s v : Double} (hform : Form text h s v) :
    ∃ rest, Through (cString text) h s v rest ∧ Closes rest [] := by
  rw [hform.cString_eq]
  exact hform

/-- The count is an `int`: it is the size of a string exactly if the scan has read all of
the string and the size is less than 2^31. -/
theorem ofNat_eq_size_iff {n size : Nat} (hn : n ≤ size) :
    (Int32.ofNat n).toInt = (size : Int) ↔ n = size ∧ size < 2 ^ 31 := by
  have hsize : (Int32.size : Int) = 2 ^ 32 := rfl
  rw [Int32.toInt_ofNat', Int.bmod_def, hsize]
  split <;> omega

/-- The C string is the text up to its first terminator. -/
theorem isPrefix_cString (text : List Char) : cString text <+: text :=
  List.takeWhile_prefix _

/-- The front of the format leaves the end of the text. -/
theorem Through.suffix {text rest : List Char} {h s v : Double}
    (hthrough : Through text h s v rest) : rest <:+ text := by
  obtain ⟨-, -, -, rfl, -, -, -, rfl, -, -⟩ := hthrough
  rename_i white₁ item₁ separators₁ white₂ item₂ separators₂ white₃ item₃
  have hvalue : rest <:+ ',' :: (white₃ ++ (item₃ ++ rest)) :=
    (List.suffix_append_of_suffix (List.suffix_append _ _)).trans (List.suffix_cons _ _)
  have hsaturation : rest <:+ white₂ ++ (item₂ ++ (separators₂ ++ _)) :=
    List.suffix_append_of_suffix (List.suffix_append_of_suffix
      (List.suffix_append_of_suffix hvalue))
  exact List.suffix_append_of_suffix (List.suffix_append_of_suffix
    (List.suffix_append_of_suffix (List.suffix_append_of_suffix hsaturation)))

/-- The closing part takes the parenthesis at least. -/
theorem Closes.length_lt {rest tail : List Char} (hcloses : Closes rest tail) :
    tail.length < rest.length := by
  obtain ⟨-⟩ := hcloses
  simp only [List.length_append, List.length_cons]
  omega

/-- The closing part leaves no more than any other reading of it. -/
theorem Closes.length_unique {rest tail tail' : List Char} (hcloses : Closes rest tail)
    (hcloses' : Closes rest tail') : tail.length ≤ tail'.length := by
  have hrun : run tail.length back rest = _ := run_back_closes hcloses
  rw [run_back_closes hcloses'] at hrun
  have hcount := congrArg Scanned.count hrun
  simp only [Option.some.injEq] at hcount
  omega

/-- A string is of the form exactly if the scan reads all of it. -/
theorem form_iff {text rest tail : List Char} {h s v h' s' v' : Double}
    (hthrough : Through (cString text) h s v rest) (hcloses : Closes rest tail) :
    Form text h' s' v' ↔
      (h, s, v) = (h', s', v') ∧ (cString text).length - tail.length = text.length := by
  constructor
  · intro hform
    obtain ⟨rest', hthrough', hcloses'⟩ := hform.seen
    obtain ⟨rfl, rfl, rfl, rfl⟩ := hthrough.unique hthrough'
    have htail := hcloses.length_unique hcloses'
    rw [List.length_nil] at htail
    rw [hform.cString_eq]
    exact ⟨rfl, by omega⟩
  · rintro ⟨heq, hlength⟩
    cases heq
    have hprefix := (isPrefix_cString text).length_le
    have hrest := hthrough.suffix.length_le
    have htail := hcloses.length_lt
    have hnil : tail = [] := List.length_eq_zero_iff.mp (by omega)
    have hwhole : cString text = text := (isPrefix_cString text).eq_of_length (by omega)
    rw [hwhole] at hthrough
    exact ⟨rest, hthrough, hnil ▸ hcloses⟩

/-- A string of the form reaches the setter, whatever the variable held. -/
theorem scanned_of_form {text : List Char} {h s v : Double} (hform : Form text h s v)
    (hsize : text.length < 2 ^ 31) (used : Int32) : scanned used text = some (h, s, v) := by
  have hwhole := hform.cString_eq
  obtain ⟨rest, hthrough, hcloses⟩ := hform.seen
  rw [scanned_closes hthrough hcloses, hwhole]
  exact if_pos ((ofNat_eq_size_iff (Nat.sub_le _ _)).mpr ⟨rfl, hsize⟩)

/-- What reaches the setter is what the form says, and other strings are refused. -/
structure ReadsForm (used : Int32) (text : List Char) : Prop where
  passes (h s v : Double) : scanned used text = some (h, s, v) ↔ Form text h s v
  throws : (∀ h s v, ¬ Form text h s v) →
    ∀ color, setString used color text = (color, .error .inputString)

/-- What it means that `setString` accepts exactly the form. -/
theorem readsForm_iff {used : Int32} {text : List Char} :
    ReadsForm used text ↔ ∀ h s v, scanned used text = some (h, s, v) ↔ Form text h s v := by
  refine ⟨ReadsForm.passes, fun hpasses => ⟨hpasses, fun hform color => ?_⟩⟩
  rw [setString]
  split
  · rename_i h s v hscanned
    exact absurd ((hpasses h s v).mp hscanned) (hform h s v)
  · rfl

/-- **A string that is cut off may be accepted.**  The setter takes exactly the strings of
the form, with their numbers, exactly if the string is not cut off after its third number
while the variable for the count happens to hold its size, and if a string of the form is
shorter than 2^31. -/
theorem setString_readsForm_iff (used : Int32) (text : List Char) :
    ReadsForm used text ↔
      ((∃ h s v, Form text h s v) → text.length < 2 ^ 31) ∧
        ¬ (CutOff text ∧ used.toInt = (text.length : Int)) := by
  rw [readsForm_iff]
  by_cases hthrough : ∃ h s v rest, Through (cString text) h s v rest
  · obtain ⟨h, s, v, rest, hthrough⟩ := hthrough
    by_cases hcloses : ∃ tail, Closes rest tail
    · obtain ⟨tail, hcloses⟩ := hcloses
      -- the count is stored, and the variable does not matter
      have hcut : ¬ CutOff text := by
        rintro ⟨_, _, _, rest', hthrough', hopen⟩
        obtain ⟨-, -, -, rfl⟩ := hthrough.unique hthrough'
        exact hopen ⟨tail, hcloses⟩
      have hcount : (cString text).length - tail.length ≤ text.length :=
        (Nat.sub_le _ _).trans (isPrefix_cString text).length_le
      simp only [scanned_closes hthrough hcloses, form_iff hthrough hcloses,
        ofNat_eq_size_iff hcount, Option.ite_none_right_eq_some, Option.some.injEq, hcut,
        false_and, not_false_iff, and_true]
      constructor
      · rintro hpasses ⟨h', s', v', heq, hlength⟩
        exact ((hpasses h' s' v').mpr ⟨heq, hlength⟩).1.2
      · intro hsize h' s' v'
        constructor
        · rintro ⟨⟨hlength, -⟩, heq⟩
          exact ⟨heq, hlength⟩
        · rintro ⟨heq, hlength⟩
          exact ⟨⟨hlength, hsize ⟨h', s', v', heq, hlength⟩⟩, heq⟩
    · -- nothing is stored: the variable decides
      have hcut : CutOff text := ⟨h, s, v, rest, hthrough, hcloses⟩
      have hform (h' s' v' : Double) : ¬ Form text h' s' v' := by
        intro hform
        obtain ⟨rest', hthrough', hcloses'⟩ := hform.seen
        obtain ⟨-, -, -, rfl⟩ := hthrough.unique hthrough'
        exact hcloses ⟨[], hcloses'⟩
      simp only [scanned_open hthrough hcloses, hform, hcut, iff_false, exists_false,
        false_implies, true_and, Option.ite_none_right_eq_some]
      constructor
      · intro hnone hused
        exact hnone h s v ⟨hused, rfl⟩
      · rintro hused h' s' v' ⟨hused', -⟩
        exact hused hused'
  · have hform (h' s' v' : Double) : ¬ Form text h' s' v' := by
      intro hform
      obtain ⟨rest', hthrough', -⟩ := hform.seen
      exact hthrough ⟨h', s', v', rest', hthrough'⟩
    have hcut : ¬ CutOff text := by
      rintro ⟨h', s', v', rest', hthrough', -⟩
      exact hthrough ⟨h', s', v', rest', hthrough'⟩
    simp [scanned_short hthrough, hform, hcut]

example : scanned 0 "hsv( 100 , .2%, 3 % )".toList =
    some (.finite 100, .finite (1 / 5), .finite 3) := by
  decide +kernel

/-- A text of the form ends with its parenthesis. -/
theorem Form.getLast {text : List Char} {h s v : Double} (hform : Form text h s v) :
    text.getLast? = some ')' := by
  obtain ⟨rest, hthrough, hcloses⟩ := hform
  obtain ⟨first, rfl⟩ := hthrough.suffix
  obtain ⟨-⟩ := hcloses
  rw [← List.append_assoc, List.getLast?_concat]

/-- Without its last bracket a string is accepted if the variable happens to hold 13. -/
theorem cutOff_accepted :
    scanned 13 "hsv(1, 2%, 3%".toList = some (.finite 1, .finite 2, .finite 3) ∧
      scanned 0 "hsv(1, 2%, 3%".toList = none ∧
      ∀ h s v, ¬ Form "hsv(1, 2%, 3%".toList h s v := by
  refine ⟨by decide +kernel, by decide +kernel, fun h s v hform => ?_⟩
  exact absurd hform.getLast (by decide)

end HSVColor

end Scalars
