import Mathlib.Data.List.Basic

/-!
# Nested brackets

A text over an alphabet with an opening and a closing bracket: how deep it leaves
a reader, and which of its symbols stand outside every bracket.

* `depthAfter`: the depth after a text, if no bracket is closed that was not opened.
* `depthAfter_append`: the depth after one text and another.
-/

namespace Brackets

variable {α : Type} [DecidableEq α] (opening closing : α)

/-- The depth after a text, nothing when a bracket is closed that was never opened. -/
def depthAfter : Nat → List α → Option Nat
  | depth, [] => some depth
  | depth, a :: text =>
      if a = opening then depthAfter (depth + 1) text
      else if a = closing then
        if depth = 0 then none else depthAfter (depth - 1) text
      else depthAfter depth text

/-- A text in which every bracket is closed, and none that was not opened. -/
def Balanced (text : List α) : Prop :=
  depthAfter opening closing 0 text = some 0

instance (text : List α) : Decidable (Balanced opening closing text) :=
  inferInstanceAs (Decidable (_ = _))

/-- The symbols outside all brackets, brackets apart. -/
def outside : Nat → List α → List α
  | _, [] => []
  | depth, a :: text =>
      if a = opening then outside (depth + 1) text
      else if a = closing then outside (depth - 1) text
      else if depth = 0 then a :: outside 0 text
      else outside depth text

variable {opening closing}

theorem depthAfter_append (text text' : List α) (depth : Nat) :
    depthAfter opening closing depth (text ++ text') =
      (depthAfter opening closing depth text).bind
        fun depth => depthAfter opening closing depth text' := by
  induction text generalizing depth with
  | nil => rfl
  | cons a text ih =>
      rw [List.cons_append, depthAfter, depthAfter]
      split
      · exact ih _
      · split
        · split
          · rfl
          · exact ih _
        · exact ih _

/-- A text without brackets leaves the depth as it is. -/
theorem depthAfter_of_plain {text : List α} (h : ∀ a ∈ text, a ≠ opening ∧ a ≠ closing)
    (depth : Nat) : depthAfter opening closing depth text = some depth := by
  induction text with
  | nil => rfl
  | cons a text ih =>
      obtain ⟨hopening, hclosing⟩ := h a List.mem_cons_self
      rw [depthAfter, if_neg hopening, if_neg hclosing]
      exact ih fun a ha => h a (List.mem_cons_of_mem _ ha)

/-- A text without brackets stands outside all brackets. -/
theorem outside_append_of_plain {text : List α} (h : ∀ a ∈ text, a ≠ opening ∧ a ≠ closing)
    (text' : List α) :
    outside opening closing 0 (text ++ text') = text ++ outside opening closing 0 text' := by
  induction text with
  | nil => rfl
  | cons a text ih =>
      obtain ⟨hopening, hclosing⟩ := h a List.mem_cons_self
      rw [List.cons_append, outside, if_neg hopening, if_neg hclosing, if_pos rfl]
      exact congrArg _ (ih fun a ha => h a (List.mem_cons_of_mem _ ha))

/-- A text that leads back to depth zero ends outside all brackets, its last bracket apart. -/
theorem getLast_mem_outside {text : List α} {depth : Nat} {a : α}
    (hbalanced : depthAfter opening closing depth text = some 0)
    (hlast : text.getLast? = some a) (hopening : a ≠ opening) (hclosing : a ≠ closing) :
    a ∈ outside opening closing depth text := by
  induction text generalizing depth with
  | nil => cases hlast
  | cons b text ih =>
      cases text with
      | nil =>
          obtain rfl : b = a := Option.some.inj hlast
          rw [depthAfter, if_neg hopening, if_neg hclosing] at hbalanced
          cases hbalanced
          rw [outside, if_neg hopening, if_neg hclosing, if_pos rfl]
          exact List.mem_cons_self
      | cons c text =>
          rw [List.getLast?_cons_cons] at hlast
          rw [depthAfter] at hbalanced
          rw [outside]
          by_cases hb : b = opening
          · rw [if_pos hb] at hbalanced ⊢
            exact ih hbalanced hlast
          rw [if_neg hb] at hbalanced ⊢
          by_cases hb' : b = closing
          · rw [if_pos hb'] at hbalanced ⊢
            obtain ⟨-, hbalanced⟩ := Option.ite_none_left_eq_some.mp hbalanced
            exact ih hbalanced hlast
          rw [if_neg hb'] at hbalanced ⊢
          by_cases hzero : depth = 0
          · rw [if_pos hzero]
            rw [hzero] at hbalanced
            exact List.mem_cons_of_mem _ (ih hbalanced hlast)
          · rw [if_neg hzero]
            exact ih hbalanced hlast

end Brackets
