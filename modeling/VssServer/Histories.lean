import Mathlib.Data.List.Basic

/-!
# Logs that obey a rule

A log is lawful if every event in it was allowed by what had been logged before.
A system that only appends allowed events has a lawful log, and what the rule says of
one event then holds wherever the event stands.

* `Lawful`: every event was allowed by those before it.
* `Lawful.concat`: a log grows by an allowed event.
-/

namespace Histories

variable {ε : Type*}

/-- Where an element lies in a list that ends with `e`. -/
theorem concat_split {l left right : List ε} {e x : ε}
    (h : l ++ [e] = left ++ x :: right) :
    (l = left ∧ e = x ∧ right = []) ∨
      ∃ rest, right = rest ++ [e] ∧ l = left ++ x :: rest := by
  rcases List.eq_nil_or_concat right with rfl | ⟨rest, last, rfl⟩
  · obtain ⟨hl, he⟩ := List.append_inj' h rfl
    exact .inl ⟨hl, List.singleton_inj.mp he, rfl⟩
  · have hsplit : l ++ [e] = (left ++ x :: rest) ++ [last] := by simpa using h
    obtain ⟨hl, he⟩ := List.append_inj' hsplit rfl
    exact .inr ⟨rest, by simp [List.singleton_inj.mp he], hl⟩

/-- Every event was allowed after the ones before it. -/
def Lawful (allowed : List ε → ε → Prop) (log : List ε) : Prop :=
  ∀ before e after, log = before ++ e :: after → allowed before e

variable {allowed : List ε → ε → Prop} {log : List ε}

theorem lawful_nil : Lawful allowed [] := by
  intro before e after hlog
  simp at hlog

theorem Lawful.concat (h : Lawful allowed log) {e : ε} (he : allowed log e) :
    Lawful allowed (log ++ [e]) := by
  intro before x after hlog
  rcases concat_split hlog with ⟨rfl, rfl, -⟩ | ⟨rest, -, hrest⟩
  · exact he
  · exact h before x rest hrest

end Histories
