import Mathlib.Data.List.Pairwise
import Mathlib.Logic.Relation
import Mathlib.Order.WellFoundedSet

/-!
# What the roots of a graph reach

Something stays alive because a root refers to it, or because something alive
does.  Reference counting keeps what is closed under that rule and supported by
it; on a graph without cycles there is only one such set, the one that the roots
reach (`reached_iff`).  Chains of edges are lists, each element with an edge to
the one before it; without cycles a chain repeats nothing and any two of its
elements are comparable.

* `Reached`: what the roots lead to.
* `reached_iff`: without cycles it is the only set that is closed and supported.
* `Acyclic.wellFounded`: an acyclic relation on a finite set is well-founded.
-/

namespace Reachability

open Relation

variable {α : Type*}

/-- A root refers to it, or something that is reached does. -/
inductive Reached (root : α → Prop) (edge : α → α → Prop) : α → Prop
  | root {o : α} (held : root o) : Reached root edge o
  | edge {v o : α} (reached : Reached root edge v) (held : edge v o) : Reached root edge o

/-- No edges lead from anything back to it. -/
def Acyclic (edge : α → α → Prop) : Prop :=
  ∀ v, ¬TransGen edge v v

variable {root I : α → Prop} {edge : α → α → Prop}

/-- Edges along which a rank grows have no cycles. -/
theorem Acyclic.of_rank (rank : α → Nat) (h : ∀ v o, edge v o → rank v < rank o) :
    Acyclic edge := by
  have hlt : ∀ {v o}, TransGen edge v o → rank v < rank o := fun hreached => by
    induction hreached with
    | single hedge => exact h _ _ hedge
    | tail _ hedge ih => exact ih.trans (h _ _ hedge)
  exact fun v hreached => lt_irrefl _ (hlt hreached)

/-- What contains the roots and is closed under edges contains what is reached. -/
theorem Reached.of_closed (hroot : ∀ o, root o → I o)
    (hedge : ∀ v o, I v → edge v o → I o) {o : α} (h : Reached root edge o) :
    I o := by
  induction h with
  | root held => exact hroot _ held
  | edge _ held ih => exact hedge _ _ ih held

/-- On finitely many nodes, edges without cycles are well founded. -/
theorem Acyclic.wellFounded (h : Acyclic edge) {nodes : Set α} (hfin : nodes.Finite)
    (hnodes : ∀ v o, edge v o → v ∈ nodes ∧ o ∈ nodes) : WellFounded edge := by
  have hstrict : IsStrictOrder α (TransGen edge) :=
    { irrefl := h, trans := fun _ _ _ => TransGen.trans }
  have hwf := Set.wellFoundedOn_iff.mp (hfin.wellFoundedOn (r := TransGen edge))
  exact Subrelation.wf (fun {v o} hedge => ⟨.single hedge, hnodes v o hedge⟩) hwf

/-- What is closed and supported, on well-founded edges, is what the roots reach. -/
theorem reached_iff (hwf : WellFounded edge) (hroot : ∀ o, root o → I o)
    (hedge : ∀ v o, I v → edge v o → I o)
    (hsupported : ∀ o, I o → root o ∨ ∃ v, I v ∧ edge v o) (o : α) :
    I o ↔ Reached root edge o := by
  refine ⟨fun hkept => ?_, Reached.of_closed hroot hedge⟩
  induction o using hwf.induction with
  | _ o ih =>
      rcases hsupported o hkept with hheld | ⟨v, hv, hvo⟩
      · exact .root hheld
      · exact .edge (ih v hvo hv) hvo

/-- What leads to something that is gone is gone, if everything that refers to
something gone is. -/
theorem gone_of_transGen {gone : α → Prop} (hback : ∀ v o, edge v o → gone o → gone v)
    {v o : α} (h : TransGen edge v o) (ho : gone o) : gone v := by
  induction h with
  | single hedge => exact hback _ _ hedge ho
  | tail _ hedge ih => exact ih (hback _ _ hedge ho)

/-- Each element has an edge to the one before it. -/
def Chain (edge : α → α → Prop) (l : List α) : Prop :=
  l.IsChain fun o v => edge v o

theorem Chain.cons {v o : α} {l : List α} (h : Chain edge (v :: l)) (hedge : edge v o) :
    Chain edge (o :: v :: l) :=
  .cons_cons hedge h

/-- Earlier elements of a chain are reached from later ones. -/
theorem Chain.pairwise {l : List α} (h : Chain edge l) :
    l.Pairwise fun o v => TransGen edge v o := by
  have : Trans (fun o v => TransGen edge v o) (fun o v => TransGen edge v o)
      (fun o v => TransGen edge v o) := ⟨fun h h' => h'.trans h⟩
  exact List.isChain_iff_pairwise.mp (h.imp fun _ _ hedge => TransGen.single hedge)

/-- A chain without cycles repeats nothing. -/
theorem Chain.nodup (hacyclic : Acyclic edge) {l : List α} (h : Chain edge l) : l.Nodup :=
  h.pairwise.imp fun hreached => by
    rintro rfl
    exact hacyclic _ hreached

/-- Two elements of a chain are comparable. -/
theorem Chain.comparable {l : List α} (h : Chain edge l) {o o' : α} (ho : o ∈ l)
    (ho' : o' ∈ l) (hne : o ≠ o') : TransGen edge o o' ∨ TransGen edge o' o := by
  have hsymm : Std.Symm fun o v => TransGen edge o v ∨ TransGen edge v o := ⟨fun _ _ => Or.symm⟩
  exact (h.pairwise.imp fun hreached => Or.inr hreached).forall ho ho' hne

end Reachability
