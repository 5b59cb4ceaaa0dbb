import Mathlib.Data.List.DropRight
import VssServer.Brackets

/-!
# The arguments of a template name

The names of fields are taken from the names of C++ types.  One loop finds an
argument of a template: it counts the brackets that are open, counts the commas
outside of them, and moves the start of the argument with every comma.  It also
moves the start with every blank that is not in inner brackets, whether the blank
stands before the argument or not.  So an argument comes back whole exactly if no
such blank follows its first other character.

* `templateargument`: the loop of the source.
* `templateargument_correct_iff`: when it returns the argument of a number.
-/

namespace Demangle

/-- `std::string_view::substr`. -/
def substr (sv : List Char) (start count : Nat) : List Char :=
  (sv.drop start).take count

/-- The loop of `templateargument` from one character on.  The number of open
brackets is never below zero. -/
def templateargument.loop (number : UInt32) (sv : List Char) :
    List Char → Nat → Nat → UInt32 → Nat → List Char
  | [], _, _, _, _ => sv
  | ch :: rest, itr, start, arg, 0 =>
      if ch = '<' then loop number sv rest (itr + 1) (itr + 1) arg 1
      else loop number sv rest (itr + 1) start arg 0
  | ch :: rest, itr, start, arg, 1 =>
      if ch = '<' then loop number sv rest (itr + 1) start arg 2
      else if ch = ' ' then loop number sv rest (itr + 1) (start + 1) arg 1
      else if ch = '>' then
        if arg = number then substr sv start (itr - start) else sv
      else if ch = ',' then
        if arg = number then substr sv start (itr - start)
        else loop number sv rest (itr + 1) (itr + 1) (arg + 1) 1
      else loop number sv rest (itr + 1) start arg 1
  | ch :: rest, itr, start, arg, nesting + 2 =>
      if ch = '<' then loop number sv rest (itr + 1) start arg (nesting + 3)
      else if ch = '>' then loop number sv rest (itr + 1) start arg (nesting + 1)
      else loop number sv rest (itr + 1) start arg (nesting + 2)

/-- `templateargument`: the argument of a number, the first being 0, and the whole
name if there is none. -/
def templateargument (number : UInt32) (sv : List Char) : List Char :=
  templateargument.loop number sv sv 0 0 0 0

def isBlank (ch : Char) : Bool :=
  ch = ' '

/-- What stands outside the brackets of an argument. -/
abbrev outer (argument : List Char) : List Char :=
  Brackets.outside '<' '>' 0 argument

/-- An argument of a template as it is written, with the blanks around it. -/
structure IsArgument (argument : List Char) : Prop where
  balanced : Brackets.Balanced '<' '>' argument
  comma : ',' ∉ outer argument

/-- A template name with its arguments. -/
def templateName (name : List Char) (arguments : List (List Char)) : List Char :=
  name ++ '<' :: ([','].intercalate arguments ++ ['>'])

/-- An argument without the blanks around it. -/
def trim (argument : List Char) : List Char :=
  (argument.dropWhile isBlank).rdropWhile isBlank

/-- What the argument of a number should be. -/
def expected (number : UInt32) (name : List Char) (arguments : List (List Char)) : List Char :=
  match arguments[number.toNat]? with
  | some argument => trim argument
  | none => templateName name arguments

/-- The loop passes over what is in front of the first bracket. -/
theorem loop_name {number : UInt32} {sv name : List Char} (hname : '<' ∉ name)
    (rest : List Char) (itr start : Nat) (arg : UInt32) :
    templateargument.loop number sv (name ++ '<' :: rest) itr start arg 0 =
      templateargument.loop number sv rest (itr + name.length + 1) (itr + name.length + 1)
        arg 1 := by
  induction name generalizing itr with
  | nil => rfl
  | cons ch name ih =>
      obtain ⟨hch, hname⟩ := not_or.mp (List.mem_cons.not.mp hname)
      rw [List.cons_append, templateargument.loop, if_neg (Ne.symm hch), ih hname,
        List.length_cons]
      congr 1 <;> omega

/-- The loop passes over an argument: outside brackets it counts the blanks. -/
theorem loop_argument {number : UInt32} {sv argument : List Char} {depth depth' : Nat}
    (hbalanced : Brackets.depthAfter '<' '>' depth argument = some depth')
    (hcomma : ',' ∉ Brackets.outside '<' '>' depth argument)
    (rest : List Char) (itr start : Nat) (arg : UInt32) :
    templateargument.loop number sv (argument ++ rest) itr start arg (depth + 1) =
      templateargument.loop number sv rest (itr + argument.length)
        (start + (Brackets.outside '<' '>' depth argument).count ' ') arg (depth' + 1) := by
  induction argument generalizing depth itr start with
  | nil =>
      cases hbalanced
      rfl
  | cons ch argument ih =>
      have hlength : itr + (ch :: argument).length = itr + 1 + argument.length := by
        rw [List.length_cons]
        omega
      rw [hlength, List.cons_append]
      rw [Brackets.depthAfter] at hbalanced
      rw [Brackets.outside] at hcomma ⊢
      by_cases hopening : ch = '<'
      · rw [if_pos hopening] at hbalanced hcomma ⊢
        rw [← ih hbalanced hcomma]
        cases depth <;> simp [templateargument.loop, hopening]
      rw [if_neg hopening] at hbalanced hcomma ⊢
      by_cases hclosing : ch = '>'
      · rw [if_pos hclosing] at hbalanced hcomma ⊢
        obtain ⟨hdepth, hbalanced⟩ := Option.ite_none_left_eq_some.mp hbalanced
        obtain ⟨depth, rfl⟩ := Nat.exists_eq_succ_of_ne_zero hdepth
        rw [← ih hbalanced hcomma]
        simp [templateargument.loop, hclosing]
      rw [if_neg hclosing] at hbalanced hcomma ⊢
      by_cases hzero : depth = 0
      · subst hzero
        rw [if_pos rfl] at hcomma ⊢
        obtain ⟨hch, hcomma⟩ := not_or.mp (List.mem_cons.not.mp hcomma)
        by_cases hblank : ch = ' '
        · have hstart (count : Nat) : start + (count + 1) = start + 1 + count := by omega
          rw [hblank, List.count_cons_self, hstart, ← ih hbalanced hcomma]
          simp [templateargument.loop]
        · rw [List.count_cons_of_ne hblank, ← ih hbalanced hcomma]
          simp [templateargument.loop, hopening, hclosing, hblank, Ne.symm hch]
      · rw [if_neg hzero] at hcomma ⊢
        obtain ⟨depth, rfl⟩ := Nat.exists_eq_succ_of_ne_zero hzero
        rw [← ih hbalanced hcomma]
        simp [templateargument.loop, hopening, hclosing]

private theorem ofNat_eq_iff {number : UInt32} {i : Nat} (hi : i ≤ number.toNat) :
    UInt32.ofNat i = number ↔ i = number.toNat := by
  rw [← UInt32.toNat_inj, UInt32.toNat_ofNat_of_lt' (hi.trans_lt number.toNat_lt)]

/-- What is cut out of the name is the argument without as many characters as it has
blanks. -/
private theorem substr_argument (front argument rest : List Char) (blanks : Nat) :
    substr (front ++ (argument ++ rest)) (front.length + blanks)
        (front.length + argument.length - (front.length + blanks)) =
      argument.drop blanks := by
  rw [substr, List.drop_length_add_append, Nat.add_sub_add_left, ← List.drop_take,
    List.take_left]

/-- The loop over the arguments, from the argument of number `i` on. -/
theorem loop_arguments {number : UInt32} {arguments : List (List Char)}
    (hne : arguments ≠ []) (hall : ∀ argument ∈ arguments, IsArgument argument)
    (sv front : List Char) (hsv : sv = front ++ ([','].intercalate arguments ++ ['>']))
    (i : Nat) (hi : i ≤ number.toNat) :
    templateargument.loop number sv ([','].intercalate arguments ++ ['>']) front.length
        front.length (UInt32.ofNat i) 1 =
      match arguments[number.toNat - i]? with
      | some argument => argument.drop ((outer argument).count ' ')
      | none => sv := by
  induction arguments generalizing front i with
  | nil => exact absurd rfl hne
  | cons argument arguments ih =>
      have hargument := hall argument List.mem_cons_self
      cases arguments with
      | nil =>
          rw [List.intercalate_singleton] at hsv ⊢
          rw [loop_argument hargument.balanced hargument.comma]
          simp only [templateargument.loop, ofNat_eq_iff hi]
          by_cases hnumber : i = number.toNat
          · have hfirst : [argument][number.toNat - i]? = some argument := by simp [hnumber]
            rw [hfirst, hsv]
            simpa [hnumber] using substr_argument front argument ['>'] _
          · have hnone : [argument][number.toNat - i]? = none := by
              rw [List.getElem?_eq_none_iff, List.length_singleton]
              omega
            rw [hnone]
            simp [hnumber]
      | cons argument' arguments =>
          rw [List.intercalate_cons_cons, List.append_assoc, List.append_assoc] at hsv ⊢
          rw [loop_argument hargument.balanced hargument.comma]
          by_cases hnumber : i = number.toNat
          · have hfirst : (argument :: argument' :: arguments)[number.toNat - i]? =
                some argument := by simp [hnumber]
            rw [hfirst, hsv]
            simpa [templateargument.loop, ofNat_eq_iff hi, hnumber] using
              substr_argument front argument _ _
          · have hrest : (argument :: argument' :: arguments)[number.toNat - i]? =
                (argument' :: arguments)[number.toNat - (i + 1)]? := by
              have hsub : number.toNat - i = number.toNat - (i + 1) + 1 := by omega
              rw [hsub, List.getElem?_cons_succ]
            rw [hrest, ← ih (List.cons_ne_nil _ _)
              (fun a ha => hall a (List.mem_cons_of_mem _ ha)) (front ++ argument ++ [','])
              (by simp [hsv]) (i + 1) (by omega)]
            simp [templateargument.loop, ofNat_eq_iff hi, hnumber, UInt32.ofNat_add,
              Nat.add_assoc]

private theorem plain_of_isBlank {text : List Char} (h : ∀ ch ∈ text, isBlank ch) :
    ∀ ch ∈ text, ch ≠ '<' ∧ ch ≠ '>' := by
  intro ch hch
  obtain rfl : ch = ' ' := of_decide_eq_true (h ch hch)
  decide

/-- The blanks outside brackets are the leading ones and those of the rest. -/
private theorem count_outer (argument : List Char) :
    (outer argument).count ' ' = (argument.takeWhile isBlank).length +
      (outer (argument.dropWhile isBlank)).count ' ' := by
  have hblank : ∀ ch ∈ argument.takeWhile isBlank, isBlank ch := fun ch hch =>
    List.mem_takeWhile_imp hch
  have hcount : (argument.takeWhile isBlank).count ' ' = (argument.takeWhile isBlank).length :=
    List.count_eq_length.mpr fun ch hch => (of_decide_eq_true (hblank ch hch)).symm
  conv_lhs => rw [← List.takeWhile_append_dropWhile (p := isBlank) (l := argument)]
  rw [outer, Brackets.outside_append_of_plain (plain_of_isBlank hblank), List.count_append,
    hcount]

/-- What is left of an argument without its leading blanks is balanced too. -/
private theorem balanced_dropWhile {argument : List Char} (h : IsArgument argument) :
    Brackets.depthAfter '<' '>' 0 (argument.dropWhile isBlank) = some 0 := by
  have hplain := plain_of_isBlank fun ch (hch : ch ∈ argument.takeWhile isBlank) =>
    List.mem_takeWhile_imp hch
  have hbalanced := h.balanced
  rw [← List.takeWhile_append_dropWhile (p := isBlank) (l := argument), Brackets.Balanced,
    Brackets.depthAfter_append, Brackets.depthAfter_of_plain hplain] at hbalanced
  exact hbalanced

/-- Without a blank outside brackets a balanced text does not end in one. -/
private theorem rdropWhile_of_no_blank {text : List Char}
    (hbalanced : Brackets.depthAfter '<' '>' 0 text = some 0) (hblank : ' ' ∉ outer text) :
    text.rdropWhile isBlank = text := by
  rw [List.rdropWhile_eq_self_iff]
  intro hne hlast
  have hlast : text.getLast hne = ' ' := of_decide_eq_true hlast
  refine hblank (Brackets.getLast_mem_outside hbalanced ?_ (by decide) (by decide))
  rw [List.getLast?_eq_some_getLast hne, hlast]

/-- A text whose front is cut off is not what is left without its last blanks. -/
private theorem drop_ne_rdropWhile {text : List Char} {count : Nat} (hcount : count ≠ 0)
    (hne : text ≠ []) (hhead : ∀ hne : text ≠ [], ¬ isBlank (text.head hne)) :
    text.drop count ≠ text.rdropWhile isBlank := by
  intro heq
  have hrest : text.rdropWhile isBlank ≠ [] := by
    intro hnil
    exact hhead hne (List.rdropWhile_eq_nil_iff.mp hnil _ (List.head_mem hne))
  -- the last character is the same on both sides, so there was no blank to cut off
  have hlast : ¬ isBlank (text.getLast hne) := by
    have h := List.rdropWhile_last_not isBlank text hrest
    simp only [← heq] at h
    rwa [List.getLast_drop] at h
  have hself : text.rdropWhile isBlank = text :=
    List.rdropWhile_eq_self_iff.mpr fun _ => hlast
  have hlength := congrArg List.length (heq.trans hself)
  have := List.length_pos_iff.mpr hne
  rw [List.length_drop] at hlength
  omega

/-- What the loop cuts out is the argument without the blanks around it exactly if no
blank outside inner brackets follows its first other character. -/
theorem drop_eq_trim_iff {argument : List Char} (h : IsArgument argument) :
    argument.drop ((outer argument).count ' ') = trim argument ↔
      ' ' ∉ outer (argument.dropWhile isBlank) := by
  have hdrop : argument.drop ((outer argument).count ' ') =
      (argument.dropWhile isBlank).drop
        ((outer (argument.dropWhile isBlank)).count ' ') := by
    have hfront : argument.drop (argument.takeWhile isBlank).length =
        argument.dropWhile isBlank := by
      conv_lhs => arg 2; rw [← List.takeWhile_append_dropWhile (p := isBlank) (l := argument)]
      exact List.drop_append_length
    rw [count_outer, ← List.drop_drop, hfront]
  have hbalanced := balanced_dropWhile h
  rw [hdrop, trim]
  constructor
  · intro heq hblank
    have hcount : (outer (argument.dropWhile isBlank)).count ' ' ≠ 0 :=
      Nat.pos_iff_ne_zero.mp (List.count_pos_iff.mpr hblank)
    refine drop_ne_rdropWhile hcount ?_ ?_ heq
    · intro hnil
      rw [hnil] at hblank
      cases hblank
    · intro hne
      exact Bool.not_eq_true _ ▸ List.head_dropWhile_not isBlank hne
  · intro hblank
    rw [List.count_eq_zero.mpr hblank, List.drop_zero,
      rdropWhile_of_no_blank hbalanced hblank]

/-- What `templateargument` returns for every template name and number. -/
theorem templateargument_eq {name : List Char} (hname : '<' ∉ name)
    {arguments : List (List Char)} (hne : arguments ≠ [])
    (hall : ∀ argument ∈ arguments, IsArgument argument) (number : UInt32) :
    templateargument number (templateName name arguments) =
      match arguments[number.toNat]? with
      | some argument => argument.drop ((outer argument).count ' ')
      | none => templateName name arguments := by
  have hfront : templateName name arguments =
      (name ++ ['<']) ++ ([','].intercalate arguments ++ ['>']) := by
    simp [templateName]
  have hlength : 0 + name.length + 1 = (name ++ ['<']).length := by simp
  have hloop := loop_arguments hne hall _ _ hfront 0 (Nat.zero_le number.toNat)
  rw [templateargument]
  conv_lhs => arg 3; rw [templateName]
  rw [loop_name hname, hlength]
  exact hloop

/-- **Blanks inside an argument cut off its front.**  For a template name with any
arguments, the argument of a number comes back without the blanks around it, and the
whole name if there is no such argument, exactly if no blank outside the argument's
own brackets follows its first other character: none inside it, and none before the
comma or the bracket that ends it. -/
theorem templateargument_correct_iff {name : List Char} (hname : '<' ∉ name)
    {arguments : List (List Char)} (hne : arguments ≠ [])
    (hall : ∀ argument ∈ arguments, IsArgument argument) (number : UInt32) :
    templateargument number (templateName name arguments) = expected number name arguments ↔
      ∀ argument, arguments[number.toNat]? = some argument →
        ' ' ∉ outer (argument.dropWhile isBlank) := by
  rw [templateargument_eq hname hne hall, expected]
  cases hargument : arguments[number.toNat]? with
  | none => simp
  | some argument =>
      rw [drop_eq_trim_iff (hall argument (List.mem_of_getElem? hargument))]
      simp

theorem templateargument_nested :
    templateargument 1 "Map<Key, List<A, B>>".toList = "List<A, B>".toList := by
  have hall : ∀ argument ∈ ["Key".toList, " List<A, B>".toList], IsArgument argument := by
    intro argument hargument
    rcases List.mem_pair.mp hargument with rfl | rfl
    · exact ⟨by decide, by decide⟩
    · exact ⟨by decide, by decide⟩
  refine (templateargument_correct_iff (by decide : '<' ∉ "Map".toList)
    (List.cons_ne_nil _ _) hall 1).mpr ?_
  intro argument hargument
  cases hargument
  decide

/-- The first letter of `unsigned int` is lost. -/
theorem templateargument_unsigned_int :
    '<' ∉ "Field".toList ∧ IsArgument "unsigned int".toList ∧
      templateargument 0 (templateName "Field".toList ["unsigned int".toList]) =
        "nsigned int".toList ∧
      expected 0 "Field".toList ["unsigned int".toList] = "unsigned int".toList :=
  ⟨by decide, ⟨by decide, by decide⟩, by decide, by decide⟩

end Demangle
