import Mathlib.Algebra.BigOperators.Group.Finset.Piecewise
import Mathlib.Algebra.GroupWithZero.Nat

/-!
# Measures

A system that comes to rest has a measure that every step lowers.  Most of such a
measure is a sum over a family, the threads or the objects, of which a step changes
one member, and what a call can still set off is a cost by well-founded recursion
over what is called.

* `sum_update`: a sum of which one member changes.
* `exists_cost`: the cost of a call that can make others.
-/

namespace Measures

open Finset

section Sums

variable {ι α : Type*} [DecidableEq ι] {t : Finset ι} {i : ι}

/-- A sum after a change of one of the values that it is taken over. -/
theorem sum_update (hi : i ∈ t) (w : α → Nat) (f : ι → α) (v : α) :
    ∑ k ∈ t, w (Function.update f i v k) + w (f i) = ∑ k ∈ t, w (f k) + w v := by
  simp only [Function.apply_update (fun _ => w), sum_update_of_mem hi]
  rw [sum_eq_add_sum_sdiff_singleton_of_mem hi fun k => w (f k)]
  omega

/-- A change of what the sum is not taken over. -/
theorem sum_update_other (hi : i ∉ t) (w : α → Nat) (f : ι → α) (v : α) :
    ∑ k ∈ t, w (Function.update f i v k) = ∑ k ∈ t, w (f k) := by
  simp only [Function.apply_update (fun _ => w), sum_update_of_notMem hi]

end Sums

section Costs

variable {κ γ : Type*} (calls : κ → List γ) (target : γ → Option κ)

/-- The cost of a call: a unit, and what its target costs. -/
def callCost (unit : Nat) (cost : κ → Nat) (c : γ) : Nat :=
  unit + (target c).elim 0 cost

/-- Where no chain of calls goes on for ever, everything has a cost that pays for the
calls it makes. -/
theorem exists_cost (unit : Nat)
    (hwf : WellFounded fun k' k => ∃ c ∈ calls k, target c = some k') :
    ∃ cost : κ → Nat, ∀ k, cost k = ((calls k).map (callCost target unit cost)).sum := by
  let cost := hwf.fix fun k rec => ((calls k).attach.map fun c =>
    unit + (target c.1).attach.elim 0 fun k' => rec k'.1 ⟨c.1, c.2, k'.2⟩).sum
  refine ⟨cost, fun k => ?_⟩
  calc cost k = ((calls k).attach.map fun c =>
        unit + (target c.1).attach.elim 0 fun k' => cost k'.1).sum := hwf.fix_eq _ k
    _ = ((calls k).attach.map fun c => callCost target unit cost c.1).sum := by
        congr 1
        refine List.map_congr_left fun c _ => ?_
        cases h : target c.1 <;> simp [callCost, h]
    _ = ((calls k).map (callCost target unit cost)).sum := by rw [List.attach_map_val]

end Costs

end Measures
